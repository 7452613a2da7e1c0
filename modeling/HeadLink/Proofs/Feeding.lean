import HeadLink.Proofs.Vacancy

/-!
# Feeding an endpoint

Received bytes come to an endpoint chunk by chunk, or it reads them itself until the stream ends. Between two chunks
the workers run and time passes. As long as there is nothing to send, none of this makes a difference: what becomes
of the endpoint depends on the bytes alone.

A chunk is cut into frames before the first of them is dealt with, so what is at stake is that dealing with a frame
never bears on how the bytes after it are cut. It does not, because the deframer has a version of its own, and cuts
two chunks as it cuts the two put together (`Deframer.push_append`).

## Contents
- **Spans.** `Endpoint.Span`: actions, with the workers running and time passing in between.
- **Bytes.** `Endpoint.Takes`: what an endpoint makes of bytes, in whatever chunks they come.
- **Reading.** `Reader.read` is a single read; `Endpoint.Loop` reads until the stream ends or fails.
- **Feeding.** `feeding_agrees`.
-/

namespace HeadLink

variable {σ : Type} {env : Environment σ}

/-! ## Spans -/

namespace Endpoint

/-- **What comes next for an endpoint**, with the action, if it is one. -/
inductive Next (env : Environment σ) : Endpoint σ → List Action → Endpoint σ → Prop
  | act {e : Endpoint σ} (a : Action) : Next env e [a] (e.perform env a)
  /-- The worker whose turn it is goes on. -/
  | work {e : Endpoint σ} : Next env e [] { e with link := e.link.work env }
  /-- Time passes, whoever is to run. -/
  | pass {e : Endpoint σ} (ms : Nat) : Next env e [] { e with link := e.link.pass ms }

/-- **A span of an endpoint**: any actions, with the workers running and time passing in between. -/
abbrev Span (env : Environment σ) : Endpoint σ → List Action → Endpoint σ → Prop := Trail (Next env)

variable {e e' e'' : Endpoint σ}

theorem span_run (actions : List Action) (e : Endpoint σ) : Span env e actions (e.run env actions).1 := by
  induction actions generalizing e with
  | nil => exact .refl
  | cons a actions ih => exact (Trail.single (.act a)).trans (ih (e.perform env a))

/-- Chunks that come one right after the other. -/
theorem span_foldl_receive (env : Environment σ) (chunks : List Bytes) (e : Endpoint σ) :
    Span env e (chunks.map .receive) (chunks.foldl (receive env) e) := by
  induction chunks generalizing e with
  | nil => exact .refl
  | cons chunk chunks ih => exact (Trail.single (.act (.receive chunk))).trans (ih (e.receive env chunk))

/-- **A span is a history.** -/
theorem Span.history {actions : List Action} (span : Span env e actions e') : ∃ past, History env e past e' := by
  induction span with
  | refl => exact ⟨[], .refl⟩
  | @tail _ _ e₁ _ _ next ih =>
    obtain ⟨past, history⟩ := ih
    cases next with
    | act a => exact ⟨_, history.trans (history_perform a e₁)⟩
    | work => exact ⟨_, history.trans (.single .work)⟩
    | pass ms => exact ⟨_, history.trans (.single (.pass ms))⟩

/-- A chunk goes through the deframer, and what arrives is dealt with. -/
theorem deframer_receive (e : Endpoint σ) (chunk : Bytes) :
    (e.receive env chunk).deframer = (e.deframer.push chunk).1 := by
  show ((e.deframer.push chunk).2.foldl (onArrival env) { e with deframer := _ }).deframer = _
  rw [foldl_onArrival_deframer]
  rfl

theorem Next.sound {actions : List Action} (next : Next env e actions e') (h : e.deframer.Sound) :
    e'.deframer.Sound := by
  cases next with
  | act a =>
    by_cases own : ∀ chunk, a ≠ .receive chunk
    · obtain ⟨link, hlink⟩ := exists_link_perform env e own
      rw [hlink]
      exact h
    · simp only [not_forall, not_not] at own
      obtain ⟨chunk, rfl⟩ := own
      show (e.receive env chunk).deframer.Sound
      rw [deframer_receive]
      exact Deframer.sound_push h chunk
  | work | pass => exact h

theorem Span.sound {actions : List Action} (span : Span env e actions e') (h : e.deframer.Sound) :
    e'.deframer.Sound := by
  induction span with
  | refl => exact h
  | tail _ next ih => exact next.sound ih

/-- The deframer of a fresh endpoint is between two frames. -/
theorem sound_of_open? {carrier : σ} (hopen : Endpoint.open? env carrier = .ok e) : e.deframer.Sound := by
  obtain ⟨-, rfl⟩ := Endpoint.eq_of_open? hopen
  exact Deframer.sound_of_header_nil rfl

/-! ## Bytes -/

/-- **What an endpoint that has nothing to send makes of bytes.** -/
structure Takes (env : Environment σ) (e : Endpoint σ) (bytes : Bytes) (e' : Endpoint σ) : Prop where
  hears : e.Hears env (e.deframer.push bytes).2 e'
  deframer : e'.deframer = (e.deframer.push bytes).1

theorem Takes.refl (h : e.link.Free) : e.Takes env [] e := by
  refine ⟨?_, ?_⟩
  · rw [Deframer.push_nil]
    exact .refl h
  · rw [Deframer.push_nil]

/-- It is all the same where the bytes are cut. -/
theorem Takes.trans (hsound : e.deframer.Sound) {first second : Bytes} (h : e.Takes env first e')
    (h' : e'.Takes env second e'') : e.Takes env (first ++ second) e'' := by
  obtain ⟨hhears, hdeframer⟩ := h'
  rw [h.deframer] at hhears hdeframer
  refine ⟨?_, ?_⟩
  · rw [Deframer.push_append hsound]
    exact h.hears.trans hhears
  · rw [Deframer.push_append hsound, hdeframer]

theorem takes_receive (h : e.link.Free) (chunk : Bytes) : e.Takes env chunk (e.receive env chunk) := by
  have hears := hears_foldl_onArrival env (e := { e with deframer := (e.deframer.push chunk).1 }) h
    (e.deframer.push chunk).2
  exact ⟨⟨hears.free, hears.intake, hears.partners, hears.journal⟩, deframer_receive e chunk⟩

/-- While no bytes come, nothing comes of it. -/
theorem Next.takes_nil (next : Next env e [] e') (h : e.link.Free) : e.Takes env [] e' := by
  have htakes {l : Link σ} (hrests : e.link.Rests l) (hlocked : l.outbox.Locked) :
      e.Takes env [] { e with link := l } := by
    refine ⟨?_, ?_⟩
    · rw [Deframer.push_nil]
      exact hears_of_rests h hrests hlocked
    · rw [Deframer.push_nil]
  cases next with
  | work => exact htakes (Link.rests_work h.vacant) (Move.locked .work h.locked)
  | pass ms =>
    have move : Move env e [] { e with link := e.link.pass ms } := .pass ms
    exact htakes (Link.rests_pass e.link ms) (move.locked h.locked)

/-- **In whatever chunks the bytes come**, and whatever time passes between them, the endpoint takes them all. -/
theorem Span.takes {chunks : List Bytes} (span : Span env e (chunks.map .receive) e') (h : e.link.Free)
    (hsound : e.deframer.Sound) : e.Takes env chunks.flatten e' := by
  generalize hactions : chunks.map Action.receive = actions at span
  induction span generalizing chunks with
  | refl =>
    obtain rfl := List.map_eq_nil_iff.mp hactions
    exact .refl h
  | tail span next ih =>
    obtain ⟨first, second, rfl, hfirst, hsecond⟩ := List.map_eq_append_iff.mp hactions
    have htaken := ih hfirst
    rw [List.flatten_append]
    refine htaken.trans hsound ?_
    cases next with
    | act a =>
      obtain ⟨chunk, rfl, rfl⟩ := List.map_eq_singleton_iff.mp hsecond
      rw [List.flatten_singleton]
      exact takes_receive htaken.hears.free chunk
    | work | pass =>
      obtain rfl := List.map_eq_nil_iff.mp hsecond
      exact Next.takes_nil (by constructor) htaken.hears.free

/-- Two endpoints have come to the same: the journal, and hence all that the listener was told and all that was handed
    to the transport, what they know of sessions, the messages under way, and the bytes of an unfinished frame. -/
structure Agrees (e e' : Endpoint σ) : Prop where
  journal : e.link.journal.toList = e'.link.journal.toList
  sessions : e.link.sessions = e'.link.sessions
  version : e.version = e'.version
  reassembly : e.reassembly = e'.reassembly
  deframer : e.deframer = e'.deframer
  delivered : e.delivered = e'.delivered
  carrier : e.link.carrier = e'.link.carrier

theorem Takes.agrees {bytes : Bytes} (h : e.Takes env bytes e') (h' : e.Takes env bytes e'') : e'.Agrees e'' := by
  have hintake : e'.intake = e''.intake := h.hears.intake.trans h'.hears.intake.symm
  have hpartners : e'.partners = e''.partners := h.hears.partners.trans h'.hears.partners.symm
  exact {
    journal := h.hears.journal.trans h'.hears.journal.symm
    sessions := congrArg Intake.sessions hintake
    version := congrArg Intake.version hintake
    reassembly := congrArg Intake.reassembly hintake
    deframer := h.deframer.trans h'.deframer.symm
    delivered := congrArg Partners.delivered hpartners
    carrier := congrArg Partners.carrier hpartners }

end Endpoint

/-! ## Reading -/

namespace Reader

/-- **A single read** that asks for at most `size` bytes: what is left to read, and what comes of it. No bytes are the
    end of the stream. -/
def read (size : Nat) (r : Reader) : Reader × Except ReadFailure Bytes :=
  match r.chunks with
  | [] =>
    (r, match r.failure with
      | some cause => .error { cause }
      | none => .ok [])
  | chunk :: rest =>
    ({ r with chunks := if chunk.length ≤ size then rest else chunk.drop size :: rest }, .ok (chunk.take size))

variable {size : Nat} {r : Reader}

/-- A read that gives no bytes is at the end of the stream, which has not failed before. -/
theorem ended_of_read (hsize : 1 ≤ size) (h : (r.read size).2 = .ok []) :
    r.beforeEnd = [] ∧ r.outcome = .ok () := by
  obtain ⟨chunks, failure⟩ := r
  cases chunks with
  | nil =>
    cases failure with
    | none => exact ⟨rfl, rfl⟩
    | some cause => cases h
  | cons chunk rest =>
    have hempty : chunk = [] := by
      cases chunk with
      | nil => rfl
      | cons b chunk =>
        obtain ⟨size, rfl⟩ := Nat.exists_eq_add_of_le' hsize
        cases h
    subst hempty
    cases failure <;> exact ⟨rfl, rfl⟩

/-- A read that fails is at the failure that the stream ends with. -/
theorem failed_of_read {fault : ReadFailure} (h : (r.read size).2 = .error fault) :
    r.beforeEnd = [] ∧ r.outcome = .error fault := by
  obtain ⟨chunks, failure⟩ := r
  cases chunks with
  | nil =>
    cases failure with
    | none => cases h
    | some cause =>
      cases h
      exact ⟨rfl, rfl⟩
  | cons chunk rest => cases h

/-- **A read that gives bytes takes them off what there is before the end**, and does not change how the stream
    ends. -/
theorem some_of_read (hsize : 1 ≤ size) {bytes : Bytes} (h : (r.read size).2 = .ok bytes) (hsome : bytes ≠ []) :
    bytes.length ≤ size ∧ r.reads size = bytes :: (r.read size).1.reads size
      ∧ (r.read size).1.outcome = r.outcome := by
  obtain ⟨chunks, failure⟩ := r
  cases chunks with
  | nil => cases failure <;> simp_all [read]
  | cons chunk rest =>
    obtain ⟨size, rfl⟩ := Nat.exists_eq_add_of_le' hsize
    cases chunk with
    | nil =>
      cases h
      exact absurd rfl hsome
    | cons b chunk =>
      cases h
      -- what is left of the chunk is read next, unless nothing is
      by_cases hall : chunk.length ≤ size
      · have hnothing : chunk.drop size = [] := List.drop_eq_nil_of_le hall
        exact ⟨by simp, by simp [reads, beforeEnd, read, pieces_cons, hall, hnothing], by simp [outcome, read, hall]⟩
      · have hleft : chunk.drop size ≠ [] := by
          rwa [ne_eq, List.drop_eq_nil_iff]
        exact ⟨by simp, by simp [reads, beforeEnd, read, pieces_cons, hall], by simp [outcome, read, hall, hleft]⟩

end Reader

/-- **Reading until the stream ends or fails**: in each round time passes until the read returns, and then the bytes
    that it gives are dealt with. -/
inductive Endpoint.Loop (env : Environment σ) : Endpoint σ → Reader → Endpoint σ → Except ReadFailure Unit → Prop
  | ended {e e' : Endpoint σ} {r : Reader} (waited : Span env e [] e')
      (read : (r.read env.settings.receiveBufferSize).2 = .ok []) : Loop env e r e' (.ok ())
  | failed {e e' : Endpoint σ} {r : Reader} {fault : ReadFailure} (waited : Span env e [] e')
      (read : (r.read env.settings.receiveBufferSize).2 = .error fault) : Loop env e r e' (.error fault)
  | handled {e e' e'' : Endpoint σ} {r : Reader} {bytes : Bytes} {result : Except ReadFailure Unit}
      (waited : Span env e [] e') (read : (r.read env.settings.receiveBufferSize).2 = .ok bytes) (some : bytes ≠ [])
      (rest : Loop env (e'.receive env bytes) (r.read env.settings.receiveBufferSize).1 e'' result) :
      Loop env e r e'' result

namespace Endpoint

variable {e e' : Endpoint σ} {r : Reader} {result : Except ReadFailure Unit}

/-- **A loop feeds the endpoint with all reads** before the end of the stream, and ends as the stream does. -/
theorem Loop.span (hsize : 1 ≤ env.settings.receiveBufferSize) (loop : Loop env e r e' result) :
    Span env e ((r.reads env.settings.receiveBufferSize).map .receive) e' ∧ result = r.outcome := by
  induction loop with
  | ended waited read =>
    obtain ⟨hend, houtcome⟩ := Reader.ended_of_read hsize read
    unfold Reader.reads
    rw [hend]
    exact ⟨waited, houtcome.symm⟩
  | failed waited read =>
    obtain ⟨hend, houtcome⟩ := Reader.failed_of_read read
    unfold Reader.reads
    rw [hend]
    exact ⟨waited, houtcome.symm⟩
  | @handled _ _ _ _ bytes _ waited read some rest ih =>
    obtain ⟨-, hreads, houtcome⟩ := Reader.some_of_read hsize read some
    rw [hreads, ← houtcome]
    exact ⟨(waited.tail (.act (.receive bytes))).trans ih.1, ih.2⟩

/-- **To receive from a reader is such a loop**, in which no time passes between the reads. -/
theorem loop_receiveFrom (hsize : 1 ≤ env.settings.receiveBufferSize) (e : Endpoint σ) (r : Reader) :
    Loop env e r (e.receiveFrom env r).1 (e.receiveFrom env r).2 := by
  unfold receiveFrom
  dsimp only
  generalize hreads : r.reads env.settings.receiveBufferSize = reads
  -- the induction follows the reads that are still to come
  induction reads generalizing e r with
  | nil =>
    cases hread : (r.read env.settings.receiveBufferSize).2 with
    | error fault =>
      rw [(Reader.failed_of_read hread).2]
      exact .failed .refl hread
    | ok bytes =>
      have hnone : bytes = [] := by
        by_contra hsome
        cases hreads.symm.trans (Reader.some_of_read hsize hread hsome).2.1
      subst hnone
      rw [(Reader.ended_of_read hsize hread).2]
      exact .ended .refl hread
  | cons bytes reads ih =>
    have hmore : r.beforeEnd ≠ [] := by
      intro hend
      unfold Reader.reads at hreads
      rw [hend] at hreads
      cases hreads
    cases hread : (r.read env.settings.receiveBufferSize).2 with
    | error fault => exact absurd (Reader.failed_of_read hread).1 hmore
    | ok got =>
      have hsome : got ≠ [] := by
        rintro rfl
        exact hmore (Reader.ended_of_read hsize hread).1
      obtain ⟨-, hnext, houtcome⟩ := Reader.some_of_read hsize hread hsome
      obtain ⟨rfl, hrest⟩ := List.cons.inj (hreads.symm.trans hnext)
      rw [← houtcome]
      exact .handled .refl hread hsome (ih _ _ hrest.symm)

end Endpoint

namespace Reader

/-- The reads give the bytes that there are before the end. -/
theorem flatten_reads (r : Reader) (size : Nat) : (r.reads size).flatten = r.beforeEnd.flatten := by
  unfold reads
  induction r.beforeEnd with
  | nil => rfl
  | cons chunk chunks ih => rw [List.flatMap_cons, List.flatten_append, ih, flatten_pieces, List.flatten_cons]

/-- **The reading fails exactly if the stream fails** before it has ended. -/
theorem outcome_eq (r : Reader) : r.outcome = .ok () ∧ (r.failure = none ∨ [] ∈ r.chunks)
    ∨ ∃ cause, r.outcome = .error { cause } ∧ r.failure = some cause ∧ [] ∉ r.chunks := by
  unfold outcome
  cases hfailure : r.failure with
  | none => exact Or.inl ⟨rfl, Or.inl rfl⟩
  | some cause =>
    have hall : (r.chunks.all fun c => !c.isEmpty) = true ↔ [] ∉ r.chunks := by
      simp only [List.all_eq_true, Bool.not_eq_true', List.isEmpty_eq_false_iff]
      exact ⟨fun h hmem => h [] hmem rfl, fun h c hc hempty => h (hempty ▸ hc)⟩
    by_cases hended : [] ∈ r.chunks
    · exact Or.inl ⟨if_neg fun h => hall.mp h hended, Or.inr hended⟩
    · exact Or.inr ⟨cause, if_pos (hall.mpr hended), rfl, hended⟩

end Reader

/-! ## Feeding -/

/-- **It is all the same how an endpoint is fed** while it has nothing to send. From every state that actions, workers
    and time can lead to: two sequences of chunks with the same bytes, whatever time passes between them, lead to the
    same journal, the same sessions, the same messages under way and the same deframer; and so does a loop over any
    reader that gives these bytes before the stream ends or fails. The loop has a result, which is that of the
    reader: it fails exactly if the stream does. -/
theorem feeding_agrees {σ : Type} {env : Environment σ} {carrier : σ} {e₀ e : Endpoint σ} {before : List Action}
    (hopen : Endpoint.open? env carrier = .ok e₀) (reached : Endpoint.Span env e₀ before e)
    (hvacant : e.link.IsVacant) :
    (∀ (chunks chunks' : List Bytes) (e₁ e₂ : Endpoint σ), Endpoint.Span env e (chunks.map .receive) e₁ →
        Endpoint.Span env e (chunks'.map .receive) e₂ → chunks.flatten = chunks'.flatten → e₁.Agrees e₂)
      ∧ ∀ r : Reader, Endpoint.Loop env e r (e.receiveFrom env r).1 (e.receiveFrom env r).2
        ∧ ∀ e₁ result, Endpoint.Loop env e r e₁ result →
          (result = .ok () ↔ r.failure = none ∨ [] ∈ r.chunks)
            ∧ (∀ fault, result = .error fault ↔ r.failure = some fault.cause ∧ [] ∉ r.chunks)
            ∧ ∀ (chunks : List Bytes) (e₂ : Endpoint σ), Endpoint.Span env e (chunks.map .receive) e₂ →
              chunks.flatten = r.beforeEnd.flatten → e₁.Agrees e₂ := by
  have hsize : 1 ≤ env.settings.receiveBufferSize := (Endpoint.eq_of_open? hopen).1.receiveBuffer
  obtain ⟨past, history⟩ := reached.history
  have hfree := history.free hopen hvacant
  have hsound := reached.sound (Endpoint.sound_of_open? hopen)
  have hagree : ∀ (chunks chunks' : List Bytes) (e₁ e₂ : Endpoint σ), Endpoint.Span env e (chunks.map .receive) e₁ →
      Endpoint.Span env e (chunks'.map .receive) e₂ → chunks.flatten = chunks'.flatten → e₁.Agrees e₂ := by
    intro chunks chunks' e₁ e₂ span span' hbytes
    have htakes := span.takes hfree hsound
    rw [hbytes] at htakes
    exact htakes.agrees (span'.takes hfree hsound)
  refine ⟨hagree, fun r => ⟨Endpoint.loop_receiveFrom hsize e r, fun e₁ result loop => ?_⟩⟩
  obtain ⟨span, rfl⟩ := loop.span hsize
  refine ⟨?_, fun fault => ?_, fun chunks e₂ span' hbytes => ?_⟩
  · rcases r.outcome_eq with ⟨houtcome, hended⟩ | ⟨cause, houtcome, hfailure, hended⟩
    · simp [houtcome, hended]
    · simp [houtcome, hfailure, hended]
  · rcases r.outcome_eq with ⟨houtcome, hnone | hended⟩ | ⟨cause, houtcome, hfailure, hended⟩
    · simp [houtcome, hnone]
    · simp [houtcome, hended]
    · cases fault
      simp [houtcome, hfailure, hended]
  · exact hagree _ _ _ _ span span' ((r.flatten_reads _).trans hbytes.symm)

/-- The peer starts the rpc service of session 1, and a message is sent. -/
def exchange : List Action :=
  [.receive [0x20, 0x07, 0x02, 1, 0, 0, 0, 0, 0, 0, 0, 5],
    .send { version := 1, service := .rpc, session := 1, body := { data := [1, 2, 3, 4] } }, .sleep 50]

/-- The peer asks for a service, sends a message, and asks for another service, in a stream that then fails. -/
def brokenStream : Reader where
  chunks := [[0x10, 0x0B, 0x01, 2, 0], [0, 0, 0, 0x11, 0x07, 0, 1, 0, 0, 0, 2, 7], [8, 0x10, 0x0A, 0x01, 2, 0, 0, 0, 0]]
  failure := some "connection reset"

/-- Once the message is written, the stream can be read in three chunks or fed in two, with a pause between them. The
    last request cannot be granted, because the transport fails. -/
theorem feeding_agrees_brokenStream :
    ∃ e₀, Endpoint.open? contention 0 = .ok e₀ ∧
      let e := (e₀.run contention exchange).1
      let read := e.receiveFrom contention brokenStream
      let first := e.receive contention (brokenStream.chunks.flatten.take 11)
      let fed := { first with link := first.link.pass 7 }.receive contention (brokenStream.chunks.flatten.drop 11)
      e.link.handed.length = 3 ∧ read.2 = .error { cause := "connection reset" }
        ∧ read.1.link.notices.length = 4 ∧ read.1.link.handed.length = 5
        ∧ read.1.link.journal.toList = fed.link.journal.toList := by
  have hopen : Endpoint.open? contention 0 = .ok _ := rfl
  obtain ⟨-, hloops⟩ := feeding_agrees hopen (Endpoint.span_run exchange _) (by decide +kernel)
  obtain ⟨hloop, hresults⟩ := hloops brokenStream
  obtain ⟨-, hfails, hagrees⟩ := hresults _ _ hloop
  refine ⟨_, rfl, by decide +kernel, (hfails _).mpr ⟨rfl, by decide⟩, by decide +kernel, by decide +kernel, ?_⟩
  -- a chunk, a pause, and another chunk
  refine (hagrees [brokenStream.chunks.flatten.take 11, brokenStream.chunks.flatten.drop 11] _ ?_ (by decide)).journal
  exact ((Trail.single (Endpoint.Next.act (.receive _))).tail (Endpoint.Next.pass 7)).tail
    (Endpoint.Next.act (.receive _))

end HeadLink
