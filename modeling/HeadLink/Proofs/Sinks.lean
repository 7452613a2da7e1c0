import Mathlib.Data.List.Forall2
import HeadLink.Fault
import HeadLink.Frame.Basic
import HeadLink.Transport.Sink

/-!
# What a byte sink gets of the frames that are sent

Frames are written one after the other, and the bytes of each in as many writes as the sink needs. Both loops end at
the first failure, so what the sink has got then is a prefix. Which prefix it is can be read off the calls of the sink
(`Exchange`): every write offers what is left of one frame and takes some of it from the front, and a flush comes
after the last byte of a frame and before the first one of the next.

The calls are described three times. `Writing` are the writes of one frame, `Carriage` adds its flush, and `Carriages`
strings frames together. Each follows the recursion of what it describes, and of each it is shown which bytes the sink
takes and how its flushes end.

## Contents
- **Sinks.** `SinkPlan.Passes`: a sink goes through calls and answers each as planned.
- **Writes.** `Writing`, and `SinkPlan.writing_writeAll`.
- **Frames.** `Carriage`, and `SinkPlan.carriage_call`: what a call of the transport comes to.
- **Frames in a row.** `Carriages`, and what can be said of it: `SinkPlan.Sends`.
-/

namespace HeadLink

/-! ## Sinks -/

/-- The sink answers the call as planned. -/
def SinkPlan.Says (p : SinkPlan) (s : SinkState) : Exchange → Prop
  | .took offered taken => ∃ n, p.write s offered = .ok n ∧ taken = offered.take n
  | .refused offered cause => p.write s offered = .error cause
  | .flushed failure => p.flush s = failure

/-- **The sink goes through the calls**, one after the other, and answers each as planned. -/
def SinkPlan.Passes (p : SinkPlan) (s : SinkState) : List Exchange → SinkState → Prop
  | [], s' => s' = s
  | x :: xs, s' => p.Says s x ∧ p.Passes (s.record x) xs s'

namespace SinkPlan

variable {p : SinkPlan} {s s' s'' : SinkState} {xs xs' : List Exchange}

theorem Passes.trans (first : p.Passes s xs s') (second : p.Passes s' xs' s'') : p.Passes s (xs ++ xs') s'' := by
  induction xs generalizing s with
  | nil =>
    cases first
    exact second
  | cons x xs ih => exact ⟨first.1, ih first.2⟩

/-- The sink has been through these calls besides. -/
theorem Passes.past (h : p.Passes s xs s') : s'.past.toList = s.past.toList ++ xs := by
  induction xs generalizing s with
  | nil => rw [h, List.append_nil]
  | cons x xs ih => simp [ih h.2, SinkState.record]

/-- What the sink has taken has grown by what it has taken in these calls. -/
theorem Passes.taken (h : p.Passes s xs s') :
    s'.taken.toList = s.taken.toList ++ xs.flatMap Exchange.taken := by
  induction xs generalizing s with
  | nil => rw [h, List.flatMap_nil, List.append_nil]
  | cons x xs ih => simp [ih h.2, SinkState.record]

end SinkPlan

/-! ## Writes -/

/-- **The writes of bytes, and how they end.** Each offers all that is left and takes some of it, up to one that fails
    or takes nothing. -/
inductive Writing : Bytes → List Exchange → Except String Unit → Prop
  | done : Writing [] [] (.ok ())
  | refused {left : Bytes} {cause : String} (unfinished : left ≠ []) :
      Writing left [.refused left cause] (.error cause)
  | stalled {left : Bytes} (unfinished : left ≠ []) :
      Writing left [.took left []] (.error SinkPlan.writeZero)
  | took {part left : Bytes} {xs : List Exchange} {result : Except String Unit} (nonempty : part ≠ [])
      (next : Writing left xs result) : Writing (part ++ left) (.took (part ++ left) part :: xs) result

namespace Writing

variable {bytes : Bytes} {xs : List Exchange} {result : Except String Unit}

/-- What is taken is the front of the bytes. -/
theorem taken_prefix (h : Writing bytes xs result) : xs.flatMap Exchange.taken <+: bytes := by
  induction h with
  | done | refused | stalled => exact List.nil_prefix
  | took nonempty next ih => exact (List.prefix_append_right_inj _).mpr ih

/-- All is taken exactly if the writing does not fail. -/
theorem taken_eq_iff (h : Writing bytes xs result) : xs.flatMap Exchange.taken = bytes ↔ result = .ok () := by
  induction h with
  | done => simp
  | refused unfinished | stalled unfinished => simpa [Exchange.taken] using unfinished.symm
  | took nonempty next ih =>
    rw [List.flatMap_cons, ← ih]
    exact List.append_right_inj _

/-- No write offers anything but the end of the bytes. -/
theorem offered_suffix (h : Writing bytes xs result) : ∀ x ∈ xs, x.offered <:+ bytes := by
  induction h with
  | done => simp
  | refused | stalled => simp [Exchange.offered]
  | took nonempty next ih =>
    intro x hx
    rcases List.mem_cons.mp hx with rfl | hx
    · exact List.suffix_rfl
    · exact (ih x hx).trans (List.suffix_append _ _)

theorem flushes_eq (h : Writing bytes xs result) : xs.filterMap Exchange.flush? = [] := by
  induction h with
  | done | refused | stalled => rfl
  | took nonempty next ih => exact ih

end Writing

/-- **What offering bytes comes to**, until all are taken or a write has failed. -/
theorem SinkPlan.writing_writeAll (p : SinkPlan) (s : SinkState) (bytes : Bytes) :
    ∃ xs, Writing bytes xs (p.writeAll s bytes).2 ∧ p.Passes s xs (p.writeAll s bytes).1 := by
  fun_induction writeAll p s bytes with
  | case1 s => exact ⟨[], .done, rfl⟩
  | case2 s b rest cause hwrite => exact ⟨_, .refused (List.cons_ne_nil _ _), hwrite, rfl⟩
  | case3 s b rest hwrite => exact ⟨_, .stalled (List.cons_ne_nil _ _), ⟨0, hwrite, rfl⟩, rfl⟩
  | case4 s b rest n hwrite ih =>
    obtain ⟨xs, hwriting, hpasses⟩ := ih
    have htook : Writing ((b :: rest.take n) ++ rest.drop n) (_ :: xs) _ := .took (List.cons_ne_nil _ _) hwriting
    rw [List.cons_append, List.take_append_drop] at htook
    exact ⟨_, htook, ⟨n + 1, hwrite, rfl⟩, hpasses⟩

/-! ## Frames -/

/-- **The calls that the bytes of a frame take, and the causes if this fails.** When all is written, the sink is asked
    to flush. -/
inductive Carriage (bytes : Bytes) : List Exchange → Option (List String) → Prop
  | unwritten {xs : List Exchange} {cause : String} (writing : Writing bytes xs (.error cause)) :
      Carriage bytes xs (some ["writing frame", cause])
  | unflushed {xs : List Exchange} {cause : String} (writing : Writing bytes xs (.ok ())) :
      Carriage bytes (xs ++ [.flushed (some cause)]) (some ["flushing frame", cause])
  | carried {xs : List Exchange} (writing : Writing bytes xs (.ok ())) :
      Carriage bytes (xs ++ [.flushed none]) none

namespace Carriage

variable {bytes : Bytes} {xs : List Exchange} {failure : Option (List String)} {causes : List String}

theorem offered_suffix (h : Carriage bytes xs failure) : ∀ x ∈ xs, x.offered <:+ bytes := by
  cases h with
  | unwritten writing => exact writing.offered_suffix
  | unflushed writing | carried writing =>
    intro x hx
    rcases List.mem_append.mp hx with hx | hx
    · exact writing.offered_suffix x hx
    · rw [List.mem_singleton.mp hx]
      exact List.nil_suffix

theorem taken_prefix (h : Carriage bytes xs failure) : xs.flatMap Exchange.taken <+: bytes := by
  cases h with
  | unwritten writing => exact writing.taken_prefix
  | unflushed writing | carried writing =>
    rw [List.flatMap_append, List.flatMap_singleton]
    exact (List.append_nil _).symm ▸ writing.taken_prefix

/-- A frame that is carried over is taken and flushed. -/
theorem of_none (h : Carriage bytes xs none) :
    xs.flatMap Exchange.taken = bytes ∧ xs.filterMap Exchange.flush? = [none] := by
  cases h with
  | carried writing =>
    have htaken := writing.taken_eq_iff.mpr rfl
    constructor
    · simpa [Exchange.taken] using htaken
    · rw [List.filterMap_append, writing.flushes_eq]
      rfl

/-- **Why a frame is not carried over**: a write has failed and the sink has not got all of it, or it has got all of it
    and the flush has failed. -/
theorem of_some (h : Carriage bytes xs (some causes)) :
    (∃ cause, causes = ["writing frame", cause] ∧ xs.flatMap Exchange.taken ≠ bytes
        ∧ xs.filterMap Exchange.flush? = [])
      ∨ ∃ cause, causes = ["flushing frame", cause] ∧ xs.flatMap Exchange.taken = bytes
        ∧ xs.filterMap Exchange.flush? = [some cause] := by
  cases h with
  | @unwritten _ cause writing =>
    refine Or.inl ⟨cause, rfl, fun htaken => ?_, writing.flushes_eq⟩
    cases writing.taken_eq_iff.mp htaken
  | @unflushed _ cause writing =>
    have htaken := writing.taken_eq_iff.mpr rfl
    refine Or.inr ⟨cause, rfl, by simpa [Exchange.taken] using htaken, ?_⟩
    rw [List.filterMap_append, writing.flushes_eq]
    rfl

end Carriage

/-- **What a call of the transport comes to.** -/
theorem SinkPlan.carriage_call (p : SinkPlan) (s : SinkState) (bytes : Bytes) :
    ∃ xs, Carriage bytes xs (p.transport.call s bytes).2.failure
      ∧ p.Passes s xs (p.transport.call s bytes).1 := by
  obtain ⟨xs, hwriting, hpasses⟩ := p.writing_writeAll s bytes
  cases hwrite : p.writeAll s bytes with
  | mk s' result =>
    rw [hwrite] at hwriting hpasses
    cases result with
    | error cause =>
      simp only [transport, hwrite]
      exact ⟨xs, .unwritten hwriting, hpasses⟩
    | ok done =>
      have hflushed : p.Passes s (xs ++ [.flushed (p.flush s')]) (s'.record (.flushed (p.flush s'))) :=
        hpasses.trans ⟨rfl, rfl⟩
      cases hflush : p.flush s' with
      | some cause =>
        simp only [transport, hwrite, flushNow, hflush] at hflushed ⊢
        exact ⟨_, .unflushed hwriting, hflushed⟩
      | none =>
        simp only [transport, hwrite, flushNow, hflush] at hflushed ⊢
        exact ⟨_, .carried hwriting, hflushed⟩

/-! ## Frames in a row -/

/-- **The calls that frames take which are sent in order**, up to one that is not carried over. -/
inductive Carriages : List Frame → List Exchange → Option (List String) → Prop
  | done : Carriages [] [] none
  | failed {f : Frame} {rest : List Frame} {xs : List Exchange} {causes : List String}
      (carriage : Carriage f.encode xs (some causes)) : Carriages (f :: rest) xs (some causes)
  | carried {f : Frame} {rest : List Frame} {xs xs' : List Exchange} {failure : Option (List String)}
      (carriage : Carriage f.encode xs none) (next : Carriages rest xs' failure) :
      Carriages (f :: rest) (xs ++ xs') failure

/-- What the sender is told. -/
def resultOf : Option (List String) → Except Fault Unit
  | none => .ok ()
  | some causes => .error (.transport (.failed causes))

/-- **Where the sending of frames has failed**, in which calls: at a frame that the sink has not got in full, or has got
    in full without being able to flush. -/
structure FailsAt (frames : List Frame) (xs : List Exchange) (causes : List String) (before : List Frame) (f : Frame)
    (after : List Frame) (carried : List (List Exchange)) (last : List Exchange) : Prop where
  frames : frames = before ++ f :: after
  calls : xs = carried.flatten ++ last
  /-- The frames before it are carried over, one after the other. -/
  carried : List.Forall₂ (fun g xs => Carriage g.encode xs none) before carried
  /-- The frame itself is not. -/
  carriage : Carriage f.encode last (some causes)
  /-- Nothing of a frame behind it is offered. -/
  offered : ∀ x ∈ xs, ∃ g ∈ before ++ [f], x.offered <:+ g.encode
  /-- A failed write means that the sink has not got all of the frame, a failed flush that it has. -/
  reason : (∃ cause, causes = ["writing frame", cause] ∧ last.flatMap Exchange.taken ≠ f.encode)
    ∨ ∃ cause, causes = ["flushing frame", cause] ∧ last.flatMap Exchange.taken = f.encode

namespace Carriages

variable {frames left : List Frame} {xs : List Exchange} {failure : Option (List String)} {causes : List String}

/-- **What is taken is the front of the encoded frames.** -/
theorem taken_prefix (h : Carriages frames xs failure) :
    xs.flatMap Exchange.taken <+: frames.flatMap Frame.encode := by
  induction h with
  | done => exact List.nil_prefix
  | failed carriage =>
    rw [List.flatMap_cons]
    exact carriage.taken_prefix.trans (List.prefix_append _ _)
  | carried carriage next ih =>
    rw [List.flatMap_append, List.flatMap_cons, carriage.of_none.1]
    exact (List.prefix_append_right_inj _).mpr ih

/-- Frames that are sent without failure are taken, and flushed one by one. -/
theorem of_none (h : Carriages frames xs none) : xs.flatMap Exchange.taken = frames.flatMap Frame.encode
    ∧ xs.filterMap Exchange.flush? = frames.map fun _ => none := by
  generalize hnone : none = failure at h
  induction h with
  | done => exact ⟨rfl, rfl⟩
  | failed => cases hnone
  | carried carriage next ih =>
    obtain ⟨htaken, hflushes⟩ := ih hnone
    rw [List.flatMap_append, List.flatMap_cons, List.filterMap_append, List.map_cons, carriage.of_none.1,
      carriage.of_none.2, htaken, hflushes]
    exact ⟨rfl, rfl⟩

/-- After a failure there has not been a successful flush of each frame. -/
theorem flushes_ne (h : Carriages frames xs (some causes)) :
    xs.filterMap Exchange.flush? ≠ frames.map fun _ => none := by
  generalize hsome : some causes = failure at h
  induction h with
  | done => cases hsome
  | failed carriage =>
    rcases carriage.of_some with ⟨cause, -, -, hflushes⟩ | ⟨cause, -, -, hflushes⟩ <;> simp [hflushes]
  | carried carriage next ih =>
    intro hall
    rw [List.filterMap_append, carriage.of_none.2, List.map_cons, List.singleton_append, List.cons.injEq] at hall
    exact ih hsome hall.2

/-- **A failure is that of one frame**, and those before it are carried over. -/
theorem failsAt (h : Carriages frames xs (some causes)) :
    ∃ before f after carried last, FailsAt frames xs causes before f after carried last := by
  generalize hsome : some causes = failure at h
  induction h with
  | done => cases hsome
  | @failed f rest xs _ carriage =>
    cases hsome
    refine ⟨[], f, rest, [], xs, rfl, rfl, .nil, carriage, ?_, ?_⟩
    · intro x hx
      exact ⟨f, List.mem_singleton_self f, carriage.offered_suffix x hx⟩
    · exact carriage.of_some.imp (fun ⟨cause, hcauses, htaken, _⟩ => ⟨cause, hcauses, htaken⟩)
        fun ⟨cause, hcauses, htaken, _⟩ => ⟨cause, hcauses, htaken⟩
  | @carried f rest xs xs' failure carriage next ih =>
    obtain ⟨before, f', after, carried, last, hfails⟩ := ih hsome
    refine ⟨f :: before, f', after, xs :: carried, last, ?_, ?_, .cons carriage hfails.carried, hfails.carriage, ?_,
      hfails.reason⟩
    · rw [hfails.frames, List.cons_append]
    · rw [hfails.calls, List.flatten_cons, List.append_assoc]
    · intro x hx
      rcases List.mem_append.mp hx with hx | hx
      · exact ⟨f, List.mem_cons_self, carriage.offered_suffix x hx⟩
      · obtain ⟨g, hg, hoffered⟩ := hfails.offered x hx
        exact ⟨g, List.mem_cons_of_mem f hg, hoffered⟩

/-- Frames that are carried over may be followed by others. -/
theorem append (h : Carriages frames xs failure) {xs' : List Exchange} {failure' : Option (List String)}
    (hnone : failure = none) (next : Carriages left xs' failure') : Carriages (frames ++ left) (xs ++ xs') failure' := by
  induction h with
  | done => exact next
  | failed => cases hnone
  | carried carriage _ ih =>
    rw [List.append_assoc]
    exact .carried carriage (ih hnone)

end Carriages

/-- **Frames are sent to a sink**: what it goes through, and what the sender is told. -/
structure SinkPlan.Sends (p : SinkPlan) (frames : List Frame) (s : SinkState) (xs : List Exchange) (s' : SinkState)
    (result : Except Fault Unit) : Prop where
  /-- The sink goes through these calls and no others. -/
  passes : p.Passes s xs s'
  past : s'.past.toList = s.past.toList ++ xs
  /-- What it takes in them is the front of the encoded frames. -/
  taken : s'.taken.toList = s.taken.toList ++ xs.flatMap Exchange.taken
  front : xs.flatMap Exchange.taken <+: frames.flatMap Frame.encode
  /-- The sender is told that all went well exactly if all bytes are taken and there was a successful flush of each
      frame. -/
  ok_iff : result = .ok () ↔ xs.flatMap Exchange.taken = frames.flatMap Frame.encode
    ∧ xs.filterMap Exchange.flush? = frames.map fun _ => none
  /-- Otherwise it is told why the transport has failed, and there is one frame at which it has. -/
  fails : ∀ fault, result = .error fault → ∃ causes before f after carried last,
    fault = .transport (.failed causes) ∧ FailsAt frames xs causes before f after carried last

theorem Carriages.sends {p : SinkPlan} {frames : List Frame} {s s' : SinkState} {xs : List Exchange}
    {failure : Option (List String)} (h : Carriages frames xs failure) (hpasses : p.Passes s xs s') :
    p.Sends frames s xs s' (resultOf failure) where
  passes := hpasses
  past := hpasses.past
  taken := hpasses.taken
  front := h.taken_prefix
  ok_iff := by
    cases failure with
    | none => exact ⟨fun _ => h.of_none, fun _ => rfl⟩
    | some causes => exact ⟨nofun, fun hall => absurd hall.2 h.flushes_ne⟩
  fails := by
    intro fault hfault
    cases failure with
    | none => cases hfault
    | some causes =>
      cases hfault
      obtain ⟨before, f, after, carried, last, hfails⟩ := h.failsAt
      exact ⟨causes, before, f, after, carried, last, rfl, hfails⟩

end HeadLink
