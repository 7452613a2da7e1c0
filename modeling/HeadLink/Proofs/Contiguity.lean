import HeadLink.Proofs.Courses
import HeadLink.Proofs.Delivery

/-!
# Frames of a message stay together

At every moment of every course of a link, what was handed to the transport is blocks, and at its end what the
worker that holds the lock has handed over so far of its message. A block is one control frame, or the frames
of one accepted message, all of them or up to the one that has failed. There is at most one block of each
message, and nothing of another block falls into it.

That blocks are kept is what `Outbox.Traced` says; here it is carried to all courses, and what it says of the
headers is spelled out.

## Contents
- **Headers.** `Envelope.Carries`, and `Block.Uniform` for all frames of a block.
- **The block under way.** `Link.Writes`.
- **Blocks.** `Link.Course.traced`, and `frames_contiguous` for every moment.
-/

namespace HeadLink

/-! ## Headers -/

/-- A frame carries what the frames of a message have in common. -/
structure Envelope.Carries (e : Envelope) (f : Frame) : Prop where
  version : f.header.version = e.version
  service : f.header.service = e.service
  session : f.header.session = e.session
  message : f.header.message = Header.messageFor e.version e.message

/-- All frames that a message is split into carry its envelope. -/
theorem Envelope.carries_of_segments {e : Envelope} {payload : Bytes} {budget : Nat}
    {frames : List Frame} (h : e.segments payload budget = .ok frames) : ∀ f ∈ frames, e.Carries f := by
  intro f hf
  obtain ⟨type, detail, part, rfl, -⟩ := Envelope.exists_of_mem_segments h hf
  exact ⟨rfl, rfl, rfl, rfl⟩

/-- What is handed over is for the submission, under the id, and carries their envelope. -/
def Written.Belongs (w : Written) (s : Submission) (message : UInt32) : Prop :=
  w.origin = .message s.number message ∧ (s.envelope message).Carries w.frame

/-- A block is one control frame, or all that it hands over belongs to one message. -/
def Block.Uniform (b : Block) : Prop :=
  match b with
  | .control f failure => f.OfControl ∧ b.written = [⟨.control, f, failure⟩]
  | .whole s message _ | .broken s message _ _ _ => ∀ w ∈ b.written, w.Belongs s message

section

variable {σ : Type} {env : Environment σ} {log : List Outbound}

theorem Submission.belongs_of_mem_sent {s : Submission} {message : UInt32} {frames : List Frame}
    (hcarries : ∀ f ∈ frames, (s.envelope message).Carries f) {w : Written}
    (hw : w ∈ s.sent message frames) : w.Belongs s message := by
  obtain ⟨f, hf, rfl⟩ := List.mem_map.mp hw
  exact ⟨rfl, hcarries f hf⟩

/-- **Good blocks are uniform**: their frames are those that a message is split into. -/
theorem Block.Good.uniform {b : Block} (h : b.Good env Frame.OfControl log) : b.Uniform := by
  cases b with
  | control f failure => exact ⟨h.1, rfl⟩
  | whole s message frames =>
    intro w hw
    exact Submission.belongs_of_mem_sent (Envelope.carries_of_segments h.2) hw
  | broken s message frames last causes =>
    obtain ⟨-, -, left, hframes⟩ := h
    have hcarries := Envelope.carries_of_segments hframes
    intro w hw
    rcases List.mem_append.mp hw with hw | hw
    · exact Submission.belongs_of_mem_sent
        (fun f hf => hcarries f (List.mem_append_left _ hf)) hw
    · rw [List.mem_singleton.mp hw]
      exact ⟨rfl, hcarries last (List.mem_append_right _ List.mem_cons_self)⟩

end

/-! ## The block under way -/

variable {σ : Type} {env : Environment σ} {log new : List Outbound} {l l' : Link σ}

/-- What is handed over of the block under way: what the worker with the lock has handed over of an accepted
    message, of which there is no block yet; and nothing if no worker has the lock. -/
def Link.Writes (env : Environment σ) (log : List Outbound) (blocks : List Block) (l : Link σ)
    (written : List Written) : Prop :=
  ((∀ id, l.lock.holder ≠ some (.worker id)) ∧ written = [])
    ∨ ∃ id g, l.lock.holder = some (.worker id) ∧ l.outbox.grip id = some g ∧ g.Wrote env written
      ∧ g.job.submission.Logged log ∧ g.job.submission.number ∉ blocks.filterMap Block.number?

/-- What an outbox knows of the block under way. -/
theorem Outbox.Traced.writes {blocks : List Block}
    (h : Outbox.Traced env Frame.OfControl log blocks l.outbox) (hl : l.outbox.Locked)
    {written : List Written} (hcurrent : l.outbox.Current env written) :
    l.Writes env log blocks written := by
  by_cases hholder : ∃ id, l.lock.holder = some (.worker id)
  · obtain ⟨id, hid⟩ := hholder
    obtain ⟨g, hg⟩ := hl.exists_grip hid
    have hnumber : l.outbox.numbers id = some g.job.submission.number := congrArg (Option.map _) hg
    have hnot := h.apart.not_mem hnumber
    exact Or.inr ⟨id, g, hid, hg, hcurrent.worker hid hg, h.held hg,
      fun hmem => hnot (List.mem_append_right _ hmem)⟩
  · rw [not_exists] at hholder
    exact Or.inl ⟨hholder, hcurrent.other hholder⟩

/-! ## Blocks -/

/-- **Courses keep to blocks.** -/
theorem Link.Course.traced {blocks : List Block} (course : Link.Course env l new l')
    (hl : l.outbox.Locked) (h : Outbox.Traced env Frame.OfControl log blocks l.outbox) :
    l'.outbox.Locked ∧ ∃ more, Outbox.Traced env Frame.OfControl (log ++ new) (blocks ++ more) l'.outbox := by
  obtain ⟨-, changes⟩ := Link.Course.changes course hl
  refine Trail.keeps (P := fun log o => o.Locked
    ∧ ∃ more, Outbox.Traced env Frame.OfControl log (blocks ++ more) o) ?_ changes ⟨hl, [], ?_⟩
  · rintro log new o o' ⟨hl, more, htraced⟩ change
    obtain ⟨evenMore, hmore⟩ := change.traced hl htraced
    rw [List.append_assoc] at hmore
    exact ⟨change.locked hl, more ++ evenMore, hmore⟩
  · rwa [List.append_nil]

/-- **The frames of a message stay together.** All runs of an endpoint are courses of its link. At every moment
    of every course, what was handed to the transport is blocks, one after the other, and the beginning of
    the block under way. Each block is one control frame, or the frames of an accepted message in their
    order, all of them or up to one that has failed, with what the frames of the message have in common. No
    message has two blocks. -/
theorem frames_contiguous {carrier : σ} {e : Endpoint σ} (hopen : Endpoint.open? env carrier = .ok e) :
    (∀ actions, ∃ log, List.Forall₂ (Accepted.Queued env) (e.run env actions).2 log
        ∧ Link.Course env e.link log (e.run env actions).1.link)
      ∧ ∀ log l, Link.Course env e.link log l →
        ∃ blocks written, l.handed = blocks.flatMap Block.written ++ written
          ∧ (∀ b ∈ blocks, b.Good env Frame.OfControl log ∧ b.Uniform)
          ∧ (blocks.filterMap Block.number?).Nodup
          ∧ l.Writes env log blocks written := by
  constructor
  · exact fun actions => Endpoint.course_run (Endpoint.Ordered.fresh hopen) actions
  · intro log l course
    obtain ⟨hlocked, hblank⟩ := Endpoint.blank_of_open? hopen
    obtain ⟨hl, blocks, htraced⟩ := Link.Course.traced course hlocked hblank
    obtain ⟨written, hhanded, hcurrent⟩ := htraced.written
    exact ⟨blocks, written, hhanded, fun b hb => ⟨htraced.good b hb, (htraced.good b hb).uniform⟩,
      (List.nodup_append.mp htraced.apart.nodup).2.1, htraced.writes hl hcurrent⟩

/-- Two workers and the caller, over a transport that takes 3 milliseconds over each frame and fails the
    fifth. -/
def contention : Environment Nat where
  settings := { mtu := 20, maxWorkers := 2 }
  transport := .numbered 3 fun n => if n = 4 then some ["reset"] else none

/-- Two messages are sent at once, and a service is started while the first one is being written. -/
def crowd : List Action :=
  [.receive [0x20, 0x07, 0x02, 1, 0, 0, 0, 0, 0, 0, 0, 5],
    .send { version := 1, service := .rpc, session := 1, body := { data := [1, 2, 3, 4] } },
    .send { version := 1, service := .rpc, session := 1, body := { data := [5, 6, 7, 8] } },
    .sleep 2, .startService .nav 1, .sleep 5]

/-- In the end the first message is written, then a control frame, then the beginning of the second message,
    up to the frame that has failed. -/
theorem frames_contiguous_crowd :
    ∃ e log, Endpoint.open? contention 0 = .ok e
      ∧ Link.Course contention e.link log (e.run contention crowd).1.link
      ∧ ((e.run contention crowd).1.link.handed.map fun w => (w.origin, w.failure))
        = [(.message 0 1, none), (.message 0 1, none), (.message 0 1, none), (.message 1 2, none),
          (.message 1 2, some ["reset"]), (.control, none)]
      ∧ ∃ blocks written, (e.run contention crowd).1.link.handed
          = blocks.flatMap Block.written ++ written
        ∧ (∀ b ∈ blocks, b.Good contention Frame.OfControl log ∧ b.Uniform)
        ∧ (blocks.filterMap Block.number?).Nodup
        ∧ (e.run contention crowd).1.link.Writes contention log blocks written := by
  have hopen : Endpoint.open? contention 0 = .ok _ := rfl
  obtain ⟨hruns, hblocks⟩ := frames_contiguous hopen
  obtain ⟨log, -, hcourse⟩ := hruns crowd
  exact ⟨_, log, rfl, hcourse, by decide +kernel, hblocks log _ hcourse⟩

end HeadLink
