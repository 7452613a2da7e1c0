import HeadLink.Proofs.BodyGrammar
import HeadLink.Proofs.Capacity

/-!
# Bulk data and the bulk service

Which service a message is sent on is decided by the message that the application hands over
(`Message.outboundService`), what its frames carry by the message and the version of its session
(`Message.payload`), and what the receiver takes for bulk data by the payload alone. From version 2 on the three
agree: a call is on the bulk service exactly if it comes back with bulk data. Empty bulk data counts as none in all
three places.

In version 1 only the data is on the wire. A call comes back without bulk data then, also if it was handed over with
some; but it is on the bulk service all the same (`routed_without_bulk`). That is the one case in which the service
and what is on the wire disagree (`bulk_routing`).

## Contents
- **Bulk data.** `hasBulk_asReceived`.
- **Frames of a message.** `Link.framesOf`; they are all on the service of the message
  (`Link.service_of_mem_framesOf`), and once it is written they are all its frames (`Link.At.frames?_framesOf`).
- **Reassembly.** `Reassembly.takeAll_message`.
- **Routing.** `bulk_routing`, `routed_without_bulk`.
-/

namespace HeadLink

variable {σ : Type} {env : Environment σ}

/-! ## Bulk data -/

/-- What arrives has bulk data if there was any, and if the version has a place for it. -/
theorem hasBulk_asReceived (m : Message) (version : UInt8) :
    (m.asReceived version).body.hasBulk = (m.body.hasBulk && decide (2 ≤ version)) := by
  unfold Message.asReceived
  by_cases h2 : 2 ≤ version
  · have hbytes : (m.body.withBulk m.body.bulkBytes).bulkBytes = m.body.bulkBytes := bulkBytes_of_bulk rfl
    rw [if_pos h2, decide_eq_true h2, Bool.and_true]
    unfold Body.hasBulk
    rw [hbytes]
  · rw [if_neg h2, decide_eq_false h2, Bool.and_false]
    rfl

/-- The service of a call. -/
theorem outboundService_call {m : Message} (hcall : m.service = .rpc) :
    m.outboundService = if m.body.hasBulk then .bulk else .rpc := by
  unfold Message.outboundService
  simp only [hcall, true_and]

/-! ## Frames of a message -/

/-- The frames of a message that were handed over, in order. -/
def Link.framesOf (l : Link σ) (n : Nat) : List Frame :=
  (l.handed.filter fun w => w.number? = some n).map Written.frame

namespace Link

variable {l : Link σ} {s : Submission} {log : List Outbound}

/-- They are what the account of the message says. -/
theorem framesOf_eq (l : Link σ) (n : Nat) :
    l.framesOf n = ((l.account n).filterMap Entry.written?).map Written.frame := by
  have hwritten : (l.handed.filter fun w => w.number? = some n) = (l.account n).filterMap Entry.written? := by
    unfold handed account accountOf
    rw [List.filter_filterMap, List.filterMap_filter]
    apply List.filterMap_congr
    intro entry _
    cases hentry : entry.written? with
    | none => simp
    | some w => simp [Option.filter, Outbox.number?_of_written hentry]
  rw [framesOf, hwritten]

theorem filterMap_written_sent (s : Submission) (message : UInt32) (frames : List Frame) :
    ((s.sent message frames).map Written.entry).filterMap Entry.written? = s.sent message frames := by
  rw [List.filterMap_map]
  exact List.filterMap_some

/-- **When a message is written, all its frames were handed over.** -/
theorem At.frames?_framesOf (h : l.At env s (.ended .written)) :
    ∃ message, s.frames? env message = .ok (l.framesOf s.number) := by
  obtain ⟨-, -, hends⟩ := h
  rw [framesOf_eq]
  generalize l.account s.number = entries at hends
  cases hends with
  | @written message frames split =>
    have hframes : (s.sent message frames).map Written.frame = frames := by
      unfold Submission.sent
      rw [List.map_map]
      exact List.map_id frames
    refine ⟨message, ?_⟩
    rw [List.filterMap_cons]
    show s.frames? env message = .ok ((List.filterMap _ _).map _)
    rw [filterMap_written_sent, hframes]
    exact split

/-- **In a quiet link whose queue is empty every accepted message has ended**, as its account tells. -/
theorem IsQuiet.ended (h : l.IsQuiet) (hqueue : l.queue = []) (hl : l.outbox.Accounted env Frame.OfControl log)
    (hs : s.Logged log) :
    l.At env s (.ended (((l.account s.number).findSome? Entry.ending?).getD .written)) := by
  obtain ⟨p, hp⟩ := hl.situated s hs
  cases p with
  | queued =>
    have hmem : s ∈ l.queue := hp.1
    rw [hqueue] at hmem
    cases hmem
  | held =>
    obtain ⟨id, g, hg, -⟩ := hp
    cases (h.grip_eq_none id).symm.trans hg
  | ended ending =>
    have hended := (at_iff hl hs).mpr hp
    rwa [← hp.2.2.ending_eq] at hended

/-- **All frames of a message are on its service**, at every moment. -/
theorem service_of_mem_framesOf (h : l.outbox.Accounted env Frame.OfControl log) (hs : s.Logged log) :
    ∀ f ∈ l.framesOf s.number, f.header.service = s.service := by
  intro f hf
  rw [framesOf_eq] at hf
  obtain ⟨w, hw, rfl⟩ := List.mem_map.mp hf
  obtain ⟨entry, hentry, hwritten⟩ := List.mem_filterMap.mp hw
  obtain ⟨p, hp⟩ := h.situated s hs
  cases entry with
  | written origin frame failure =>
    cases hwritten
    have hnumber := (List.mem_filter.mp hentry).2
    cases origin with
    | control => simp [Entry.number?] at hnumber
    | message n message =>
      obtain rfl : n = s.number := by simpa [Entry.number?] using hnumber
      obtain ⟨frames, hframes, hmem⟩ := Outbox.At.mem_frames hp hentry
      obtain ⟨type, detail, part, rfl, -⟩ := Envelope.exists_of_mem_segments hframes hmem
      rfl
  | told n => cases hwritten
  | taken t => cases hwritten
  | dropped t => cases hwritten

end Link

/-! ## Reassembly -/

/-- **A receiver makes one message of the frames**, and it is what the sender's message comes back as. -/
theorem Reassembly.takeAll_message {s : Submission} {m : Message} {message : UInt32} {frames : List Frame}
    (hp : m.payload s.version = .ok s.payload) (hservice : s.service = m.outboundService)
    (hsession : s.session = m.session) (hframes : s.frames? env message = .ok frames) {r : Reassembly}
    (hfree : ∀ f ∈ frames, r.opened.get? f.header.key = none) (hroom : r.openCount < r.maxOpen)
    (hmax : s.payload.length ≤ r.maxMessageSize) :
    r.takeAll (frames.map .ok)
      = (r, List.replicate (frames.length - 1) (.ok none) ++ [.ok (some (m.asReceived s.version))]) := by
  have hkey : r.opened.get? (s.envelope message).key = none := by
    obtain ⟨f, hf⟩ := List.exists_mem_of_ne_nil _ (Envelope.segments_ne_nil hframes)
    obtain ⟨type, detail, part, rfl, -⟩ := Envelope.exists_of_mem_segments hframes hf
    exact hfree _ hf
  obtain ⟨header, hversion, hheader, hsame, htake⟩ := takeAll_segments hkey hroom hmax hframes
  have hmessage : outcome header s.payload = .ok (some (m.asReceived s.version)) := by
    unfold outcome
    rw [ofPayload?_payload hp hversion (hheader.trans hservice) (hsame.trans hsession)]
    rfl
  rw [htake, hmessage]

/-! ## Routing -/

/-- **What an accepted message is queued as**: in a version that fits into a header, with the payload and the service
    of the request that it is sent as. -/
theorem Endpoint.Sends.queued {carrier : σ} {e e₁ e₂ : Endpoint σ} (hopen : Endpoint.open? env carrier = .ok e)
    {past : List Arrival} (history : Endpoint.History env e past e₁) (hpast : Endpoint.Legible past) {m : Message}
    {s : Submission} (sends : e₁.Sends env m s e₂) :
    e₁.link.sessions.version? m.session = some s.version
      ∧ Accepted.Queued env { message := m, version := s.version } s.toOutbound := by
  obtain ⟨log, hordered⟩ := (history.steady hpast (Endpoint.Ordered.fresh hopen).steady).ordered
  obtain ⟨version, hversion, hqueued⟩ := hordered.queued sends.outbound
  obtain rfl : s.version = version := hqueued.version
  exact ⟨hversion, hqueued⟩

/-- Whatever happens after a message was accepted, there is an account of what has become of it. -/
theorem Endpoint.Sends.accounted {carrier : σ} {e e₁ e₂ e₃ : Endpoint σ}
    (hopen : Endpoint.open? env carrier = .ok e) {past new : List Arrival} (history : Endpoint.History env e past e₁)
    {m : Message} {s : Submission} (sends : e₁.Sends env m s e₂) (future : Endpoint.History env e₂ new e₃) :
    ∃ log, e₃.link.outbox.Accounted env Frame.OfControl log ∧ s.Logged log := by
  have hfresh := Endpoint.accounted_of_open? hopen
  obtain ⟨log, course, hlogged⟩ := (sends.tracks hopen history).course
  obtain ⟨more, course'⟩ := future.course (Link.Course.locked course hfresh.locked)
  exact ⟨log ++ more, (Link.Course.accounted (course.trans course') hfresh).1, hlogged.append more⟩

/-- **On which service a call is sent, and whether it comes back with bulk data.** All runs are histories in which the
    headers that arrive fit the layout. On every such history, whatever happens after a call was accepted, its frames
    are on the bulk service if it was handed over with bulk data, and on the rpc service if not. When it is written, a
    receiver makes one message of them. It has bulk data if the call has and the version of the session is at least
    2. So the service agrees with what is on the wire, unless there is bulk data and the version has no place for
    it. -/
theorem bulk_routing {carrier : σ} {e : Endpoint σ} (hopen : Endpoint.open? env carrier = .ok e) :
    (∀ actions, Endpoint.History env e (e.arrivals env actions) (e.run env actions).1
        ∧ Endpoint.Legible (e.arrivals env actions))
      ∧ ∀ past e₁ m e₂, Endpoint.History env e past e₁ → Endpoint.Legible past → m.service = .rpc →
        e₁.send env m = (e₂, .ok ()) →
        ∃ s, e₁.Sends env m s e₂ ∧ ValidVersion s.version ∧ e₁.link.sessions.version? m.session = some s.version
          ∧ ∀ new e₃, Endpoint.History env e₂ new e₃ →
            (∀ f ∈ e₃.link.framesOf s.number, f.header.service = if m.body.hasBulk then .bulk else .rpc)
              ∧ (e₃.link.At env s (.ended .written) → ∃ received : Message,
                (∀ r : Reassembly, (∀ f ∈ e₃.link.framesOf s.number, r.opened.get? f.header.key = none) →
                  r.openCount < r.maxOpen → s.payload.length ≤ r.maxMessageSize →
                  r.takeAll ((e₃.link.framesOf s.number).map .ok)
                    = (r, List.replicate ((e₃.link.framesOf s.number).length - 1) (.ok none)
                      ++ [.ok (some received)]))
                ∧ received.body.hasBulk = (m.body.hasBulk && decide (2 ≤ s.version))
                ∧ ((∀ f ∈ e₃.link.framesOf s.number,
                    f.header.service = if received.body.hasBulk then .bulk else .rpc)
                  ↔ (m.body.hasBulk = true → 2 ≤ s.version))) := by
  have hfresh := Endpoint.Ordered.fresh hopen
  refine ⟨fun actions => ⟨Endpoint.history_run actions e, hfresh.fits_of_mem_arrivals actions⟩, ?_⟩
  intro past e₁ m e₂ history hpast hcall hsend
  obtain ⟨s, sends⟩ := Endpoint.exists_sends hsend
  obtain ⟨hversion, hqueued⟩ := sends.queued hopen history hpast
  refine ⟨s, sends, hqueued.valid, hversion, ?_⟩
  intro new e₃ future
  obtain ⟨log, haccounted, hlogged⟩ := sends.accounted hopen history future
  have hservice : ∀ f ∈ e₃.link.framesOf s.number, f.header.service = if m.body.hasBulk then .bulk else .rpc := by
    intro f hf
    rw [Link.service_of_mem_framesOf haccounted hlogged f hf]
    exact hqueued.service.trans (outboundService_call hcall)
  refine ⟨hservice, ?_⟩
  intro hwritten
  obtain ⟨message, hframes⟩ := hwritten.frames?_framesOf
  have hbulk := hasBulk_asReceived (Endpoint.asRequest m s.version) s.version
  change _ = (m.body.hasBulk && decide (2 ≤ s.version)) at hbulk
  refine ⟨(Endpoint.asRequest m s.version).asReceived s.version, ?_, hbulk, ?_⟩
  · intro r hfree hroom hmax
    exact Reassembly.takeAll_message hqueued.payload hqueued.service hqueued.session hframes hfree hroom hmax
  · rw [hbulk]
    constructor
    · intro hagree hhas
      by_contra hold
      obtain ⟨f, hf⟩ := List.exists_mem_of_ne_nil _ (Envelope.segments_ne_nil hframes)
      have hboth := (hagree f hf).symm.trans (hservice f hf)
      simp [hhas, hold] at hboth
    · intro hplace f hf
      rw [hservice f hf]
      cases hhas : m.body.hasBulk with
      | false => rfl
      | true => simp [hplace hhas]

/-- A call with bulk data. -/
def bulkyCall : Message :=
  { emptyObject with body := { data := [0x7B, 0x7D], bulk := some [1, 2, 3, 4, 5, 6, 7, 8, 9, 10] } }

/-- In version 2 a call with bulk data takes four frames on the bulk service, and comes back with bulk data. -/
theorem bulk_routing_parts :
    let env := faultless 20
    let r : Reassembly := { maxMessageSize := 24, maxOpen := 1 }
    ∃ e, Endpoint.open? env 0 = .ok e
      ∧ ∃ s e₂, (e.run env [greeting 2]).1.Sends env bulkyCall s e₂
        ∧ let frames := (e₂.sleep env 10).link.framesOf s.number
          frames.length = 4
            ∧ ∃ received, r.takeAll (frames.map .ok) = (r, List.replicate 3 (.ok none) ++ [.ok (some received)])
              ∧ received.body.hasBulk = true ∧ ∀ f ∈ frames, f.header.service = .bulk := by
  intro env r
  have hfacts : ∀ e, Endpoint.open? env 0 = .ok e →
      let e₁ := (e.run env [greeting 2]).1
      let e₂ := (e₁.send env bulkyCall).1
      let l := (e₂.sleep env 10).link
      (e₁.send env bulkyCall).2 = .ok () ∧ e₁.link.accepted = 0 ∧ e₁.link.sessions.version? 1 = some 2
        ∧ ((e₁.outbound env bulkyCall).toOption.map fun x => x.payload.length) = some 24
        ∧ l.IsQuiet ∧ l.queue = [] ∧ (l.account 0).findSome? Entry.ending? = none
        ∧ (l.framesOf 0).length = 4 := by
    rintro e ⟨⟩
    decide +kernel
  obtain ⟨e, hopen⟩ : ∃ e, Endpoint.open? env 0 = .ok e := ⟨_, rfl⟩
  obtain ⟨haccepted, hnumber, hsession, hpayload, hquiet, hqueue, hending, hlength⟩ := hfacts e hopen
  obtain ⟨hruns, hrouted⟩ := bulk_routing hopen
  obtain ⟨history, hpast⟩ := hruns [greeting 2]
  obtain ⟨s, sends, -, hversion, hafter⟩ := hrouted _ _ bulkyCall _ history hpast rfl (Prod.ext rfl haccepted)
  obtain ⟨hzero, htwo⟩ : s.number = 0 ∧ s.version = 2 :=
    ⟨sends.number.trans hnumber, Option.some.inj (hversion.symm.trans hsession)⟩
  rw [sends.outbound] at hpayload
  have hsize : s.payload.length = 24 := Option.some.inj hpayload
  have hsleep : Endpoint.History env ((e.run env [greeting 2]).1.send env bulkyCall).1 []
      (((e.run env [greeting 2]).1.send env bulkyCall).1.sleep env 10) := .single (.call (.sleep 10) nofun)
  obtain ⟨log, haccounted, hlogged⟩ := sends.accounted hopen history hsleep
  have hwritten := hquiet.ended hqueue haccounted hlogged
  obtain ⟨hservice, hreceived⟩ := hafter _ _ hsleep
  rw [hzero] at hwritten hservice hreceived
  rw [hending] at hwritten
  obtain ⟨received, htake, hbulk, -⟩ := hreceived hwritten
  rw [hlength] at htake
  rw [htwo] at hbulk
  refine ⟨e, hopen, s, _, sends, ?_⟩
  rw [hzero]
  exact ⟨hlength, received, htake r (fun f _ => rfl) (by decide) hsize.le, hbulk, hservice⟩

/-- **In version 1 a call with bulk data is on the bulk service, and comes back without.** The same call is written in
    one frame, whose payload is the data. -/
theorem routed_without_bulk :
    let env := faultless 64
    let r : Reassembly := { maxMessageSize := 24, maxOpen := 1 }
    ∃ e, Endpoint.open? env 0 = .ok e
      ∧ let e₁ := (e.run env [greeting 1]).1
        let frames := ((e₁.send env bulkyCall).1.sleep env 10).link.framesOf 0
        (e₁.send env bulkyCall).2 = .ok ()
          ∧ frames.map (fun f => (f.header.service, f.payload)) = [(.bulk, [0x7B, 0x7D])]
          ∧ (r.takeAll (frames.map .ok)).2
            = [.ok (some { version := 1, service := .bulk, session := 1, body := { data := [0x7B, 0x7D] } })] := by
  intro env r
  refine ⟨_, rfl, ?_⟩
  decide +kernel

end HeadLink
