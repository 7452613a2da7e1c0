import HeadLink.Proofs.MessageRoundTrip
import HeadLink.Proofs.Runs

/-!
# Delivery

Whatever one endpoint hands to its transport, another one can be fed with: block by block, control frames
leave its unfinished messages alone, and the frames of a message bring that message.

## Contents
- **What is handed over.** `Link.handed`, `Link.wire` and `Link.begun`; `Link.notices`.
- **What is heard.** `Outbox.heard`: messages and faults of the receive path. Nothing else that a link does
  adds to it.
- **Deframing.** `Endpoint.foldl_receive`: chunks are arrivals, one after the other.
- **Blocks.** `Endpoint.Ordered.onBlock`: a block leaves the receiver between messages, and brings its
  message (`Block.brings`).
- **Delivery.** `messages_delivered`.
-/

namespace HeadLink

/-! ## What is handed over -/

/-- The notice that an entry notes. -/
def Entry.notice? : Entry → Option Notice
  | .told n => some n
  | _ => none

/-- The message that a notice brings. -/
def Notice.message? : Notice → Option Message
  | .messageReceived m => some m
  | _ => none

/-- Whether a notice is about a frame that was refused, or that has no place in a message. -/
def Notice.isReceiveFault : Notice → Bool
  | .fault .parsing _ | .fault (.reassembling _) _ => true
  | _ => false

namespace Link

variable {σ : Type}

/-- What was handed to the transport, in order. -/
def handed (l : Link σ) : List Written := l.journal.toList.filterMap Entry.written?

/-- The bytes that were handed to the transport. -/
def wire (l : Link σ) : Bytes := l.handed.flatMap fun w => w.frame.encode

/-- What the listener was told, in order. -/
def notices (l : Link σ) : List Notice := l.journal.toList.filterMap Entry.notice?

end Link

/-- The number of the message that a frame is the first of. -/
def Written.begins? (w : Written) : Option Nat :=
  match w.origin with
  | .message number _ => if w.frame.header.type = .consecutive then none else some number
  | .control => none

/-- The numbers of the messages of which frames were handed over, in the order of their first frames. -/
def Link.begun {σ : Type} (l : Link σ) : List Nat := l.handed.filterMap Written.begins?

/-- Whether a worker at the stage waits for the bell. -/
def Stage.isIdle : Stage → Bool
  | .idle _ => true
  | _ => false

/-- Every worker waits for the bell, unless it has ended. -/
def Link.IsQuiet {σ : Type} (l : Link σ) : Prop :=
  ∀ e ∈ l.workers.entries, e.2.stage.isIdle = true

instance {σ : Type} (l : Link σ) : Decidable l.IsQuiet :=
  inferInstanceAs (Decidable (∀ e ∈ l.workers.entries, e.2.stage.isIdle = true))

/-- A worker that waits for the bell has no message in its hands. -/
theorem Link.IsQuiet.grip_eq_none {σ : Type} {l : Link σ} (h : l.IsQuiet) (id : Nat) :
    l.outbox.grip id = none := by
  cases hw : l.workers.get? id with
  | none => exact congrArg (fun w? => (w?.map Worker.stage).bind Stage.grip) hw
  | some w =>
    have hstage : l.stageOf id = some w.stage := congrArg (Option.map Worker.stage) hw
    have hidle := h _ (Table.mem_of_get? hw)
    rw [grip_outbox hstage]
    unfold Stage.isIdle at hidle
    split at hidle
    · rename_i deadline hdeadline
      rw [show w.stage = .idle deadline from hdeadline]
      rfl
    · cases hidle

/-! ## What is heard -/

/-- A notice that the receive path gives: a message, or a fault. -/
def Entry.heard? (e : Entry) : Option Notice :=
  e.notice?.filter fun n => n.message?.isSome || n.isReceiveFault

namespace Outbox

variable {σ : Type} {env : Environment σ} {allowed : Frame → Prop} {o o' : Outbox}

/-- What the receive path has told the listener. -/
def heard (o : Outbox) : List Notice := o.journal.filterMap Entry.heard?

theorem heard_note (o : Outbox) (e : Entry) : (o.note e).heard = o.heard ++ e.heard?.toList := by
  show (o.journal ++ [e]).filterMap Entry.heard? = _
  rw [List.filterMap_append]
  congr 1

theorem heard_note_of_none {e : Entry} (he : e.heard? = none) : (o.note e).heard = o.heard := by
  rw [heard_note, he]
  exact List.append_nil _

/-- Workers do not tell about the receive path. -/
theorem Work.heard (work : Work env o o') : o'.heard = o.heard := by
  cases work with
  | rest | grant | finish => rfl
  | @refuse s queue fault hqueue hprepared =>
    have htake : (o.take s queue).heard = o.heard := heard_note_of_none (o := o) (e := .taken s) rfl
    rw [heard_note_of_none rfl, htake]
  | @takeOn id s queue job hturn hworker hgrip hqueue hprepared =>
    have hstart : ((o.take s queue).startJob id job).heard = (o.take s queue).heard := by
      unfold startJob
      split <;> rfl
    rw [hstart]
    exact heard_note_of_none (o := o) (e := .taken s) rfl
  | @hand id job f left failure hturn hgrip hleft hanswer =>
    exact heard_note_of_none (o := o) (e := .written job.origin f failure) rfl
  | @giveUp id job causes hturn hgrip =>
    exact heard_note_of_none (o := o.release) rfl

/-- Nor does the caller while it writes. -/
theorem Steps.heard (steps : Steps env allowed o o') : o'.heard = o.heard := by
  induction steps with
  | refl => rfl
  | tail _ step ih =>
    rw [← ih]
    cases step with
    | work hwork => exact hwork.heard
    | request | release => rfl
    | control hholder hallowed hanswer => exact heard_note_of_none rfl

end Outbox

/-! ## Deframing -/

namespace Endpoint

variable {σ : Type} {env : Environment σ} {e : Endpoint σ}

theorem acknowledge_deframer (d : Deframer) (h : Header) :
    ({ e with deframer := d } : Endpoint σ).acknowledge env h
      = { e.acknowledge env h with deframer := d } := by
  unfold acknowledge write
  dsimp only
  cases (e.link.write env [.control h.version h.service h.session .startServiceAck]).2 <;> rfl

theorem noteStarted_deframer (d : Deframer) (h : Header) :
    ({ e with deframer := d } : Endpoint σ).noteStarted h = { e.noteStarted h with deframer := d } := by
  unfold noteStarted
  dsimp only
  split <;> rfl

theorem noteEnded_deframer (d : Deframer) (h : Header) :
    ({ e with deframer := d } : Endpoint σ).noteEnded h = { e.noteEnded h with deframer := d } := by
  unfold noteEnded
  show (if e.endsService h then _ else _) = _
  split
  · dsimp only
    split <;> rfl
  · rfl

theorem onControl_deframer (d : Deframer) (h : Header) :
    ({ e with deframer := d } : Endpoint σ).onControl env h
      = { e.onControl env h with deframer := d } := by
  unfold onControl
  cases h.controlType? with
  | none => rfl
  | some type =>
    cases type with
    | startService => exact acknowledge_deframer d h
    | startServiceAck => exact noteStarted_deframer d h
    | endService | endServiceAck => exact noteEnded_deframer d h
    | navAck =>
      dsimp only
      split <;> rfl
    | startServiceNack | heartbeatAck | endServiceNack | heartbeat => rfl

theorem deliver_deframer (d : Deframer) (m : Message) :
    ({ e with deframer := d } : Endpoint σ).deliver env m = { e.deliver env m with deframer := d } := by
  unfold deliver
  dsimp only
  split <;> split <;> rfl

/-- What arrives is dealt with without the deframer. -/
theorem onArrival_deframer (d : Deframer) (arrival : Arrival) :
    ({ e with deframer := d } : Endpoint σ).onArrival env arrival
      = { e.onArrival env arrival with deframer := d } := by
  unfold onArrival
  cases arrival with
  | error fault => rfl
  | ok f =>
    dsimp only
    unfold onFrame
    split
    · exact onControl_deframer d f.header
    · dsimp only
      cases (e.reassembly.accept f).2 with
      | error fault => rfl
      | ok m? =>
        cases m? with
        | none => rfl
        | some m => exact deliver_deframer (e := { e with reassembly := (e.reassembly.accept f).1 }) d m

theorem foldl_onArrival_deframer (d : Deframer) (arrivals : List Arrival) :
    arrivals.foldl (onArrival env) { e with deframer := d }
      = { arrivals.foldl (onArrival env) e with deframer := d } := by
  induction arrivals generalizing e with
  | nil => rfl
  | cons arrival arrivals ih => rw [List.foldl_cons, List.foldl_cons, onArrival_deframer, ih]

/-- **Chunks are the arrivals that they bring**, dealt with one after the other. -/
theorem foldl_receive (chunks : List Bytes) :
    chunks.foldl (receive env) e
      = { (e.deframer.pushAll chunks).2.foldl (onArrival env) e with
          deframer := (e.deframer.pushAll chunks).1 } := by
  induction chunks generalizing e with
  | nil => rfl
  | cons chunk chunks ih =>
    have hreceive : e.receive env chunk = { (e.deframer.push chunk).2.foldl (onArrival env) e with
        deframer := (e.deframer.push chunk).1 } := foldl_onArrival_deframer _ _
    rw [List.foldl_cons, hreceive, ih, Deframer.pushAll_cons, List.foldl_append,
      foldl_onArrival_deframer]

/-! ## Blocks -/

theorem heard_tell (e : Endpoint σ) (n : Notice) :
    (e.tell n).link.outbox.heard = e.link.outbox.heard ++ (Entry.told n).heard?.toList := by
  show (e.link.record (.told n)).outbox.heard = _
  rw [Link.outbox_record, Outbox.heard_note]

theorem heard_tell_of_none {n : Notice} (hn : (Entry.told n).heard? = none) (e : Endpoint σ) :
    (e.tell n).link.outbox.heard = e.link.outbox.heard := by
  rw [heard_tell, hn]
  exact List.append_nil _

theorem acknowledge_heard (hl : e.link.outbox.Locked) (h : Header) :
    (e.acknowledge env h).link.outbox.heard = e.link.outbox.heard := by
  have hwrite : (e.write env (.control h.version h.service h.session .startServiceAck)).1.link.outbox.heard
      = e.link.outbox.heard := by
    have hall : ∀ f ∈ [Frame.control h.version h.service h.session .startServiceAck], True :=
      fun _ _ => trivial
    exact Outbox.Steps.heard (Link.write_steps env hall hl)
  unfold acknowledge
  split
  · rename_i e' heq
    rw [heq] at hwrite
    exact hwrite
  · rename_i e' fault heq
    rw [heq] at hwrite
    rw [heard_tell_of_none rfl]
    exact hwrite

/-- The receive path tells nothing about a control frame. -/
theorem onControl_heard (hl : e.link.outbox.Locked) (h : Header) :
    (e.onControl env h).link.outbox.heard = e.link.outbox.heard := by
  have hended : (e.noteEnded h).link.outbox.heard = e.link.outbox.heard := by
    unfold noteEnded
    split
    · dsimp only
      split <;> exact heard_tell_of_none rfl _
    · rfl
  unfold onControl
  split
  · exact acknowledge_heard hl h
  · unfold noteStarted
    dsimp only
    split
    · rw [heard_tell_of_none rfl, heard_tell_of_none rfl]
      rfl
    · rw [heard_tell_of_none rfl]
      rfl
  · exact heard_tell_of_none rfl e
  · exact hended
  · exact hended
  · exact heard_tell_of_none rfl e
  · split
    · exact heard_tell_of_none rfl e
    · rfl
  · rfl
  · rfl
  · rfl

theorem acknowledge_reassembly (h : Header) :
    (e.acknowledge env h).reassembly = e.reassembly := by
  unfold acknowledge write
  dsimp only
  cases (e.link.write env [.control h.version h.service h.session .startServiceAck]).2 <;> rfl

/-- If no message is under way, a control frame discards none. -/
theorem onControl_reassembly (hempty : e.reassembly.opened = ∅) (h : Header) :
    (e.onControl env h).reassembly = e.reassembly := by
  have hdiscard : e.reassembly.discardSession h.session = e.reassembly := by
    unfold Reassembly.discardSession
    rw [hempty]
    show ({ e.reassembly with opened := ∅ } : Reassembly) = e.reassembly
    rw [← hempty]
  have hended : (e.noteEnded h).reassembly = e.reassembly := by
    unfold noteEnded
    split
    · dsimp only
      split
      · exact hdiscard
      · rfl
    · rfl
  unfold onControl
  split
  · exact acknowledge_reassembly h
  · unfold noteStarted
    dsimp only
    split <;> rfl
  · rfl
  · exact hended
  · exact hended
  · rfl
  · split <;> rfl
  · rfl
  · rfl
  · rfl

theorem deliver_heard (e : Endpoint σ) (m : Message) :
    (e.deliver env m).link.outbox.heard = e.link.outbox.heard ++ [.messageReceived m] := by
  have htold : ({ e with delivered := e.delivered + 1 }.tell (.messageReceived m)).link.outbox.heard
      = e.link.outbox.heard ++ [.messageReceived m] := heard_tell { e with delivered := _ } _
  unfold deliver
  dsimp only
  split <;> split
  · rw [heard_tell_of_none rfl, heard_tell_of_none rfl, htold]
  · rw [heard_tell_of_none rfl, htold]
  · rw [heard_tell_of_none rfl, htold]
  · exact htold

theorem deliver_reassembly (e : Endpoint σ) (m : Message) :
    (e.deliver env m).reassembly = e.reassembly := by
  unfold deliver
  dsimp only
  split <;> split <;> rfl

/-- A data frame brings what the reassembly makes of it. -/
theorem onArrival_data {f : Frame} (hdata : f.header.type ≠ .control) {m? : Option Message}
    (haccept : (e.reassembly.accept f).2 = .ok m?) :
    e.onArrival env (.ok f) = m?.elim { e with reassembly := (e.reassembly.accept f).1 }
      (deliver env { e with reassembly := (e.reassembly.accept f).1 }) := by
  show e.onFrame env f = _
  unfold onFrame
  rw [if_neg hdata]
  dsimp only
  rw [haccept]
  cases m? <;> rfl

/-- Data frames bring what the reassembly makes of them, as long as it finds no fault. -/
theorem foldl_onArrival_data {frames : List Frame}
    (hdata : ∀ f ∈ frames, f.header.type ≠ .control) {r : Reassembly} {brought : List (Option Message)}
    (htake : e.reassembly.takeAll (frames.map .ok) = (r, brought.map .ok)) :
    ((frames.map .ok).foldl (onArrival env) e).reassembly = r
      ∧ ((frames.map .ok).foldl (onArrival env) e).link.outbox.heard
        = e.link.outbox.heard ++ (brought.filterMap id).map .messageReceived := by
  induction frames generalizing e brought with
  | nil =>
    cases brought with
    | nil =>
      cases htake
      exact ⟨rfl, (List.append_nil _).symm⟩
    | cons m? rest => cases htake
  | cons f fs ih =>
    have hrest : ∀ g ∈ fs, g.header.type ≠ .control := fun g hg => hdata g (List.mem_cons_of_mem f hg)
    rw [List.map_cons, Reassembly.takeAll_ok, Prod.mk.injEq] at htake
    obtain ⟨hr, hresults⟩ := htake
    cases brought with
    | nil => cases hresults
    | cons m? more =>
      rw [List.map_cons, List.cons.injEq] at hresults
      obtain ⟨hfirst, hmore⟩ := hresults
      rw [List.map_cons, List.foldl_cons, onArrival_data (hdata f List.mem_cons_self) hfirst]
      have hrests : ((e.reassembly.accept f).1.takeAll (fs.map .ok)) = (r, more.map .ok) :=
        Prod.ext hr hmore
      cases m? with
      | none =>
        obtain ⟨hfinal, hheard⟩ := ih (e := { e with reassembly := (e.reassembly.accept f).1 }) hrest hrests
        exact ⟨hfinal, hheard⟩
      | some m =>
        -- the message is delivered before the next frame, which leaves the reassembly alone
        have hafter : (deliver env { e with reassembly := (e.reassembly.accept f).1 } m).reassembly
            = (e.reassembly.accept f).1 := deliver_reassembly _ m
        rw [← hafter] at hrests
        obtain ⟨hfinal, hheard⟩ := ih hrest hrests
        refine ⟨hfinal, hheard.trans ?_⟩
        rw [deliver_heard]
        exact List.append_assoc _ _ _

end Endpoint

/-- What a block brings: the message of its number, as the log has it. -/
def Block.brings (log : List Accepted) (b : Block) : List Message :=
  match b.number?.bind (log[·]?) with
  | some a => [a.atPeer]
  | none => []

/-- The frames of a message: one that is the first of its message, and consecutive ones. -/
theorem Envelope.segments_eq_cons {e : Envelope} {payload : Bytes} {budget : Nat} {frames : List Frame}
    (h : e.segments payload budget = .ok frames) :
    ∃ f rest, frames = f :: rest ∧ (f.header.type = .single ∨ f.header.type = .first)
      ∧ ∀ g ∈ rest, g.header.type = .consecutive := by
  obtain ⟨hb, hcount⟩ := bounds_of_segments h
  rw [segments_eq hb hcount] at h
  cases h
  split
  · exact ⟨_, [], rfl, Or.inl rfl, nofun⟩
  · refine ⟨_, _, rfl, Or.inr rfl, ?_⟩
    intro g hg
    obtain ⟨detail, part, -, rfl⟩ := exists_of_mem_consecutiveFrames hg
    rfl

/-- What is related to an element of a list is related to one of the other. -/
theorem exists_of_forall₂ {α β : Type} {R : α → β → Prop} {xs : List α} {ys : List β}
    (h : List.Forall₂ R xs ys) {n : Nat} {y : β} (hy : ys[n]? = some y) :
    ∃ x, xs[n]? = some x ∧ R x y := by
  induction h generalizing n with
  | nil => cases hy
  | cons hxy _ ih =>
    cases n with
    | zero =>
      cases hy
      exact ⟨_, rfl, hxy⟩
    | succ n => exact ih hy

section

variable {σ τ : Type} {env : Environment σ} {log : List Accepted} {queued : List Outbound} {b : Block}

/-- The submission of a good block was queued for a message of the log. -/
theorem exists_of_logged (hlog : List.Forall₂ (Accepted.Queued env) log queued) {s : Submission}
    (hs : s.Logged queued) : ∃ a, log[s.number]? = some a ∧ a.Queued env s.toOutbound :=
  exists_of_forall₂ hlog hs

/-- The frames of an accepted message are such that a receiver takes them whose ceiling is the sender's MTU or
    above. -/
theorem fits_of_frames? (hlog : List.Forall₂ (Accepted.Queued env) log queued) {ceiling : UInt32}
    (hceiling : env.settings.mtu ≤ ceiling.toNat) {s : Submission} (hs : s.Logged queued) {message : UInt32}
    {frames : List Frame} (hframes : s.frames? env message = .ok frames) : ∀ f ∈ frames, f.Fits ceiling := by
  obtain ⟨a, -, ha⟩ := exists_of_logged hlog hs
  have hv : ValidVersion s.version := ha.version ▸ ha.valid
  have hbudget : env.settings.frameBudget s.version ≤ ceiling.toNat :=
    Nat.le_trans (Nat.sub_le _ _) hceiling
  exact Envelope.fits_of_segments hv.one_le hv.le_fifteen hframes hbudget

/-- So are the frames of a good block. -/
theorem Block.Good.fits (h : b.Good env Frame.IsControl queued)
    (hlog : List.Forall₂ (Accepted.Queued env) log queued) (hmtu : 12 < env.settings.mtu)
    {ceiling : UInt32} (hceiling : env.settings.mtu ≤ ceiling.toNat) :
    ∀ w ∈ b.written, w.frame.Fits ceiling := by
  intro w hw
  rcases Outbox.of_mem_written h hw with ⟨-, ⟨hheader, hlength, hwithin⟩, -⟩ | ⟨s, message, frames, hs, hframes, hf⟩
  · -- control frames have at most 4 bytes, and the MTU leaves room for a header and more
    refine ⟨hheader, hlength, UInt32.le_iff_toNat_le.mpr ?_⟩
    have hfour : w.frame.header.size.toNat ≤ 4 := UInt32.le_iff_toNat_le.mp hwithin
    omega
  · exact fits_of_frames? hlog hceiling hs hframes w.frame hf

/-- Frames of a message are no control frames. -/
theorem Envelope.type_ne_control {e : Envelope} {payload : Bytes} {budget : Nat} {frames : List Frame}
    (h : e.segments payload budget = .ok frames) : ∀ f ∈ frames, f.header.type ≠ .control := by
  obtain ⟨first, rest, rfl, hfirst, hrest⟩ := Envelope.segments_eq_cons h
  intro f hf
  rcases List.mem_cons.mp hf with rfl | hf
  · rcases hfirst with hfirst | hfirst <;> rw [hfirst] <;> exact nofun
  · rw [hrest f hf]
    exact nofun

/-- Over a transport that never fails no message is broken off. -/
theorem Block.Good.not_broken (hcall : ∀ carrier bytes, (env.transport.call carrier bytes).2.failure = none)
    {s : Submission} {message : UInt32} {frames : List Frame} {last : Frame} {causes : List String} :
    ¬ (Block.broken s message frames last causes).Good env Frame.IsControl queued := by
  rintro ⟨-, ⟨carrier, hfailure⟩, -⟩
  rw [hcall] at hfailure
  cases hfailure

/-- All frames of an accepted message bring it as the peer is to get it, if no other one is under way. -/
theorem Accepted.Queued.takeAll {a : Accepted} {s : Submission} (ha : a.Queued env s.toOutbound)
    {message : UInt32} {frames : List Frame} (hframes : s.frames? env message = .ok frames)
    {r : Reassembly} (hempty : r.opened = ∅) (hroom : 0 < r.maxOpen)
    (hsize : env.settings.maxMessageSize ≤ r.maxMessageSize) :
    r.takeAll (frames.map .ok)
      = (r, (List.replicate (frames.length - 1) none ++ [some a.atPeer]).map .ok) := by
  have hfree : r.opened.get? (s.envelope message).key = none := by
    rw [hempty]
    rfl
  have hopen : r.openCount < r.maxOpen := by
    unfold Reassembly.openCount
    rw [hempty]
    exact hroom
  obtain ⟨header, hv, hservice, hsession, htake⟩ := Reassembly.takeAll_segments hfree hopen
    (Nat.le_trans ha.length_le hsize) hframes
  have houtcome : Reassembly.outcome header s.payload = .ok (some a.atPeer) := by
    unfold Reassembly.outcome
    rw [ofPayload?_payload ha.payload (hv.trans ha.version) (hservice.trans ha.service)
      (hsession.trans ha.session), a.asReceived_asRequest]
    rfl
  rw [htake, houtcome, List.map_append, List.map_replicate]
  rfl

/-- **A block brings its message**, and leaves the receiver without a message under way. -/
theorem Endpoint.Ordered.onBlock {envB : Environment τ} {e : Endpoint τ} {logB : List Accepted}
    (he : e.Ordered envB logB) (hempty : e.reassembly.opened = ∅) (hroom : 0 < e.reassembly.maxOpen)
    (hsize : env.settings.maxMessageSize ≤ e.reassembly.maxMessageSize)
    (hcall : ∀ carrier bytes, (env.transport.call carrier bytes).2.failure = none)
    (hlog : List.Forall₂ (Accepted.Queued env) log queued) (h : b.Good env Frame.IsControl queued) :
    ((b.written.map fun w => .ok w.frame).foldl (Endpoint.onArrival envB) e).reassembly = e.reassembly
      ∧ ((b.written.map fun w => .ok w.frame).foldl (Endpoint.onArrival envB) e).link.outbox.heard
        = e.link.outbox.heard ++ (b.brings log).map .messageReceived := by
  cases b with
  | control f failure =>
    have hstep : e.onArrival envB (.ok f) = e.onControl envB f.header := if_pos h.1.type
    show (e.onArrival envB (.ok f)).reassembly = _ ∧ (e.onArrival envB (.ok f)).link.outbox.heard = _
    rw [hstep, onControl_reassembly hempty, onControl_heard he.outbox.locked]
    exact ⟨rfl, (List.append_nil _).symm⟩
  | whole s message frames =>
    obtain ⟨hs, hframes⟩ := h
    obtain ⟨a, ha, hqueued⟩ := exists_of_logged hlog hs
    have harrivals : ((Block.whole s message frames).written.map fun w => .ok w.frame : List Arrival)
        = frames.map .ok := by
      show ((s.sent message frames).map fun w => Except.ok w.frame) = _
      unfold Submission.sent
      rw [List.map_map]
      rfl
    have hbrings : (Block.whole s message frames).brings log = [a.atPeer] := by
      show (match (some s.number).bind (log[·]?) with
        | some a => [a.atPeer]
        | none => []) = _
      rw [Option.bind_some, ha]
    obtain ⟨hfinal, hheard⟩ := foldl_onArrival_data (Envelope.type_ne_control hframes)
      (hqueued.takeAll hframes hempty hroom hsize)
    rw [harrivals, hbrings]
    refine ⟨hfinal, hheard.trans ?_⟩
    rw [List.filterMap_append, List.filterMap_replicate_of_none rfl]
    rfl
  | broken s message frames last causes => exact absurd h (Block.Good.not_broken hcall)

/-- **Blocks bring their messages**, one after the other. -/
theorem Endpoint.Ordered.onBlocks {envB : Environment τ} {e : Endpoint τ} {logB : List Accepted}
    (he : e.Ordered envB logB) (hempty : e.reassembly.opened = ∅) (hroom : 0 < e.reassembly.maxOpen)
    (hsize : env.settings.maxMessageSize ≤ e.reassembly.maxMessageSize)
    (hcall : ∀ carrier bytes, (env.transport.call carrier bytes).2.failure = none)
    (hlog : List.Forall₂ (Accepted.Queued env) log queued) {blocks : List Block}
    (hgood : ∀ b ∈ blocks, b.Good env Frame.IsControl queued)
    (hfits : ∀ b ∈ blocks, ∀ w ∈ b.written, w.frame.header.Fits) :
    (((blocks.flatMap Block.written).map fun w => .ok w.frame).foldl
        (Endpoint.onArrival envB) e).link.outbox.heard
      = e.link.outbox.heard ++ (blocks.flatMap (Block.brings log)).map .messageReceived := by
  induction blocks generalizing e with
  | nil => exact (List.append_nil _).symm
  | cons b blocks ih =>
    obtain ⟨hsame, hheard⟩ := he.onBlock hempty hroom hsize hcall hlog (hgood b List.mem_cons_self)
    have hnext : ((b.written.map fun w => .ok w.frame).foldl (Endpoint.onArrival envB) e).Ordered
        envB logB := by
      refine he.foldl_onArrival fun f hf => ?_
      obtain ⟨w, hw, hf⟩ := List.mem_map.mp hf
      cases hf
      exact hfits b List.mem_cons_self w hw
    have hrest := ih hnext (by rw [hsame]; exact hempty) (by rw [hsame]; exact hroom)
      (by rw [hsame]; exact hsize) (fun b' hb' => hgood b' (List.mem_cons_of_mem b hb'))
      fun b' hb' => hfits b' (List.mem_cons_of_mem b hb')
    rw [List.flatMap_cons, List.map_append, List.foldl_append, hrest, hheard, List.flatMap_cons,
      List.map_append, List.append_assoc]

/-- The first frames of blocks are those of their messages. -/
theorem begins_of_good (hcall : ∀ carrier bytes, (env.transport.call carrier bytes).2.failure = none)
    (h : b.Good env Frame.IsControl queued) :
    b.written.filterMap Written.begins? = b.number?.toList := by
  cases b with
  | control f failure => rfl
  | whole s message frames =>
    obtain ⟨f, rest, rfl, hfirst, hrest⟩ := Envelope.segments_eq_cons h.2
    have hbegins : (⟨.message s.number message, f, none⟩ : Written).begins? = some s.number := by
      refine if_neg ?_
      rcases hfirst with hfirst | hfirst <;> rw [hfirst] <;> exact nofun
    have hnone : (s.sent message rest).filterMap Written.begins? = [] := by
      refine List.filterMap_eq_nil_iff.mpr fun w hw => ?_
      obtain ⟨g, hg, rfl⟩ := List.mem_map.mp hw
      exact if_pos (hrest g hg)
    show (⟨.message s.number message, f, none⟩ :: s.sent message rest).filterMap Written.begins? = _
    rw [List.filterMap_cons, hbegins, hnone]
    rfl
  | broken s message frames last causes => exact absurd h (Block.Good.not_broken hcall)

theorem begins_of_all_good
    (hcall : ∀ carrier bytes, (env.transport.call carrier bytes).2.failure = none) {blocks : List Block}
    (hgood : ∀ b ∈ blocks, b.Good env Frame.IsControl queued) :
    (blocks.flatMap Block.written).filterMap Written.begins? = blocks.filterMap Block.number? := by
  induction blocks with
  | nil => rfl
  | cons b blocks ih =>
    have hrest := ih fun b' hb' => hgood b' (List.mem_cons_of_mem b hb')
    rw [List.flatMap_cons, List.filterMap_append, begins_of_good hcall (hgood b List.mem_cons_self),
      hrest, List.filterMap_cons]
    cases b.number? <;> rfl

/-- What is written of a message is written in a block of its number. -/
theorem number_of_mem_written {w : Written} (hw : w ∈ b.written) {number : Nat} {message : UInt32}
    (horigin : w.origin = .message number message) : b.number? = some number := by
  cases b with
  | control f failure =>
    rw [List.mem_singleton.mp hw] at horigin
    cases horigin
  | whole s id frames =>
    obtain ⟨f, -, rfl⟩ := List.mem_map.mp hw
    cases horigin
    rfl
  | broken s id frames last causes =>
    rcases List.mem_append.mp hw with hw | hw
    · obtain ⟨f, -, rfl⟩ := List.mem_map.mp hw
      cases horigin
      rfl
    · rw [List.mem_singleton.mp hw] at horigin
      cases horigin
      rfl

/-- The messages that good blocks bring are those of the log under the numbers of the blocks. -/
theorem brings_of_good (hlog : List.Forall₂ (Accepted.Queued env) log queued) {blocks : List Block}
    (hgood : ∀ b ∈ blocks, b.Good env Frame.IsControl queued) :
    (blocks.flatMap (Block.brings log)).map some
      = (blocks.filterMap Block.number?).map fun number => log[number]?.map Accepted.atPeer := by
  induction blocks with
  | nil => rfl
  | cons b blocks ih =>
    have hrest := ih fun b' hb' => hgood b' (List.mem_cons_of_mem b hb')
    rw [List.flatMap_cons, List.map_append, hrest, List.filterMap_cons]
    unfold Block.brings
    cases hn : b.number? with
    | none => rfl
    | some number =>
      have hlt := Outbox.number_lt_of_good (hgood b List.mem_cons_self) hn
      rw [← hlog.length_eq] at hlt
      have hget : log[number]? = some log[number] := List.getElem?_eq_getElem hlt
      rw [Option.bind_some, hget]
      show some log[number].atPeer :: _ = log[number]?.map Accepted.atPeer :: _
      rw [hget]
      rfl

end

/-! ## Delivery -/

theorem Link.heard_eq {σ : Type} (l : Link σ) :
    l.outbox.heard = l.notices.filter fun n => n.message?.isSome || n.isReceiveFault := by
  unfold Link.notices
  rw [List.filter_filterMap]
  rfl

/-- Frames that were handed over arrive as they are, in whatever chunks their bytes come. -/
theorem Deframer.pushAll_written {d : Deframer} (hphase : d.phase = .header []) {written : List Written}
    (hfits : ∀ w ∈ written, w.frame.Fits d.ceiling) {chunks : List Bytes}
    (hchunks : chunks.flatten = written.flatMap fun w => w.frame.encode) :
    (d.pushAll chunks).2 = written.map fun w => .ok w.frame := by
  have hframes : ∀ f ∈ written.map Written.frame, f.Fits d.ceiling := by
    intro f hf
    obtain ⟨w, hw, rfl⟩ := List.mem_map.mp hf
    exact hfits w hw
  have hbytes : chunks.flatten = (written.map Written.frame).flatMap Frame.encode := by
    rw [hchunks, List.flatMap_map]
  rw [pushAll_eq_push (sound_of_header_nil hphase), hbytes, push_frames hphase hframes, List.map_map]
  rfl

/-- All messages are heard. -/
theorem filterMap_message?_filter (notices : List Notice) :
    (notices.filter fun n => n.message?.isSome || n.isReceiveFault).filterMap Notice.message?
      = notices.filterMap Notice.message? := by
  rw [List.filterMap_filter]
  refine List.filterMap_congr fun n _ => ?_
  cases n.message? with
  | none => exact ite_self none
  | some m => rfl

/-- **Delivery.** Whatever was done to an endpoint, once none of its workers is about anything, all bytes
    that it has handed to its transport, cut into chunks in whatever way, bring to a fresh endpoint exactly
    the messages that it has begun to write, once each, in the order of their first frames, in the versions
    that their sessions had when they were accepted. There is no fault on the way. The transport never
    fails, and the receiver takes frames and messages as large as the sender's. -/
theorem messages_delivered {σ τ : Type} {envA : Environment σ} {carrierA : σ} {a : Endpoint σ}
    (ha : Endpoint.open? envA carrierA = .ok a)
    (hcall : ∀ carrier bytes, (envA.transport.call carrier bytes).2.failure = none)
    {actions : List Action} (hquiet : (a.run envA actions).1.link.IsQuiet)
    {envB : Environment τ} {carrierB : τ} {b : Endpoint τ} (hb : Endpoint.open? envB carrierB = .ok b)
    (hframe : envA.settings.mtu ≤ envB.settings.maxFramePayload.toNat)
    (hsize : envA.settings.maxMessageSize ≤ envB.settings.maxMessageSize) {chunks : List Bytes}
    (hchunks : chunks.flatten = (a.run envA actions).1.link.wire) :
    let sender := (a.run envA actions).1.link
    let accepted := (a.run envA actions).2
    let notices := (chunks.foldl (Endpoint.receive envB) b).link.notices
    (∀ n ∈ notices, n.isReceiveFault = false)
      ∧ sender.begun.Nodup
      ∧ (∀ w ∈ sender.handed, ∀ number message, w.origin = .message number message →
          number ∈ sender.begun)
      ∧ (notices.filterMap Notice.message?).map some
        = sender.begun.map fun number => accepted[number]?.map Accepted.atPeer := by
  intro sender accepted notices
  have hA : (a.run envA actions).1.Ordered envA accepted := (Endpoint.Ordered.fresh ha).run actions
  have hrulesA := (Endpoint.eq_of_open? ha).1
  have hB := Endpoint.Ordered.fresh hb
  obtain ⟨hrulesB, hfresh⟩ := Endpoint.eq_of_open? hb
  obtain ⟨queued, blocks, hlog, htraced⟩ := hA.outbox.traced
  have hhanded : sender.handed = blocks.flatMap Block.written :=
    htraced.handed_of_rest hA.outbox.locked hquiet.grip_eq_none
  have hbegun : sender.begun = blocks.filterMap Block.number? := by
    unfold Link.begun
    rw [hhanded]
    exact begins_of_all_good hcall htraced.good
  have hfits : ∀ b' ∈ blocks, ∀ w ∈ b'.written, w.frame.Fits envB.settings.maxFramePayload :=
    fun b' hb' => (htraced.good b' hb').fits hlog hrulesA.mtu hframe
  -- the bytes are cut into the frames that were handed over
  have hpush : (b.deframer.pushAll chunks).2
      = (blocks.flatMap Block.written).map fun w => .ok w.frame := by
    rw [← hhanded]
    refine Deframer.pushAll_written (by rw [hfresh]) ?_ hchunks
    intro w hw
    rw [hhanded] at hw
    obtain ⟨b', hb', hw⟩ := List.mem_flatMap.mp hw
    rw [hfresh]
    exact hfits b' hb' w hw
  -- and the frames bring the messages of their blocks
  have hheard : (chunks.foldl (Endpoint.receive envB) b).link.outbox.heard
      = (blocks.flatMap (Block.brings accepted)).map .messageReceived := by
    have hbring := hB.onBlocks (by rw [hfresh]) (by rw [hfresh]; exact hrulesB.openMessages)
      (by rw [hfresh]; exact hsize) hcall hlog htraced.good fun b' hb' w hw => (hfits b' hb' w hw).header
    rw [Endpoint.foldl_receive, hpush]
    refine hbring.trans ?_
    rw [hfresh]
    rfl
  rw [Link.heard_eq] at hheard
  -- no faults; each message once; all that was begun; and the messages themselves
  refine ⟨?_, ?_, ?_, ?_⟩
  · intro n hn
    by_contra hfault
    rw [Bool.not_eq_false] at hfault
    have hmem : n ∈ notices.filter fun n => n.message?.isSome || n.isReceiveFault :=
      List.mem_filter.mpr ⟨hn, by rw [hfault, Bool.or_true]⟩
    rw [hheard] at hmem
    obtain ⟨m, -, rfl⟩ := List.mem_map.mp hmem
    cases hfault
  · rw [hbegun]
    exact (List.nodup_append.mp htraced.apart.nodup).2.1
  · intro w hw number message horigin
    rw [hhanded] at hw
    obtain ⟨b', hb', hw⟩ := List.mem_flatMap.mp hw
    rw [hbegun]
    exact List.mem_filterMap.mpr ⟨b', hb', number_of_mem_written hw horigin⟩
  · have hmessages : notices.filterMap Notice.message? = blocks.flatMap (Block.brings accepted) := by
      rw [← filterMap_message?_filter, hheard, List.filterMap_map]
      exact List.filterMap_some
    rw [hmessages, hbegun]
    exact brings_of_good hlog htraced.good

/-- A sender whose frames carry at most 8 bytes of a message, over a transport that takes 3 milliseconds
    over each. -/
def slowSender : Environment Nat where
  settings := { mtu := 20 }
  transport := .numbered 3 fun _ => none

/-- A receiver that cannot answer. -/
def muteReceiver : Environment Nat where
  settings := { mtu := 13, maxFramePayload := 20, maxOpenMessages := 1, initialVersion := 3 }
  transport := .numbered 0 fun _ => some ["closed"]

/-- A call with bulk data is queued in version 2, its session is acknowledged again in version 1, and
    another message is queued, which leaves first. Control frames are written before and after them. -/
def renegotiation : List Action :=
  [.receive [0x20, 0x07, 0x02, 1, 0, 0, 0, 0, 0, 0, 0, 5],
    .send { version := 1, service := .rpc, session := 1
            body := { data := [1, 2, 3], functionId := 9, bulk := some [4, 5] } },
    .receive [0x10, 0x07, 0x02, 1, 0, 0, 0, 0],
    .send { version := 1, service := .rpc, session := 1
            body := { data := [1, 2, 3, 4, 5, 6, 7, 8, 9, 10, 11, 12, 13] } },
    .startSession 4, .sleep 100, .endService .rpc 1]

theorem messages_delivered_renegotiation :
    ∃ a b, Endpoint.open? slowSender 0 = .ok a ∧ Endpoint.open? muteReceiver 0 = .ok b
      ∧ (a.run slowSender renegotiation).1.link.begun = [1, 0]
      ∧ let sender := (a.run slowSender renegotiation).1.link
        let accepted := (a.run slowSender renegotiation).2
        let notices := ((pieces 5 sender.wire).foldl (Endpoint.receive muteReceiver) b).link.notices
        (∀ n ∈ notices, n.isReceiveFault = false)
          ∧ sender.begun.Nodup
          ∧ (∀ w ∈ sender.handed, ∀ number message, w.origin = .message number message →
              number ∈ sender.begun)
          ∧ (notices.filterMap Notice.message?).map some
            = sender.begun.map fun number => accepted[number]?.map Accepted.atPeer :=
  ⟨_, _, rfl, rfl, by decide +kernel, messages_delivered rfl (fun _ _ => rfl) (by decide +kernel) rfl
    (by decide) (by decide) (flatten_pieces _ _)⟩

end HeadLink
