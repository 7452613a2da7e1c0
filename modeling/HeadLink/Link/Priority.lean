import HeadLink.Notice

/-!
# The order of sending

Waiting messages leave by service, then by correlation id, then in the order in which they were
accepted.

## Contents
- **The order.** `Priority` and `Priority.Before`; two of them never tie (`Priority.eq_of_not_before`).
- **Sorting.** `Priority.sort`, and there is only one such order (`Priority.sort_eq_of_perm`).
- **The queue.** `enqueue` keeps a queue in that order (`pairwise_enqueue`), which is to say that it sorts
  (`map_priority_enqueue`).
-/

namespace HeadLink

/-! ## The order -/

/-- The place of a message among those that wait. -/
structure Priority where
  service : ServiceType
  correlationId : UInt32
  /-- How many messages were accepted before it. -/
  number : Nat
  deriving DecidableEq

namespace Priority

/-- `p` leaves before `q`. -/
def Before (p q : Priority) : Prop :=
  p.service.code < q.service.code ∨ p.service.code = q.service.code ∧
    (p.correlationId < q.correlationId ∨ p.correlationId = q.correlationId ∧ p.number < q.number)

instance (p q : Priority) : Decidable (Before p q) := by
  unfold Before
  infer_instance

theorem Before.trans {p q r : Priority} (hpq : Before p q) (hqr : Before q r) : Before p r := by
  simp only [Before, UInt8.lt_iff_toNat_lt, UInt32.lt_iff_toNat_lt, ← UInt8.toNat_inj,
    ← UInt32.toNat_inj] at *
  omega

theorem Before.asymm {p q : Priority} (hpq : Before p q) : ¬ Before q p := by
  simp only [Before, UInt8.lt_iff_toNat_lt, UInt32.lt_iff_toNat_lt, ← UInt8.toNat_inj,
    ← UInt32.toNat_inj] at *
  omega

/-- Priorities that tie are the same. -/
theorem eq_of_not_before {p q : Priority} (hpq : ¬ Before p q) (hqp : ¬ Before q p) : p = q := by
  obtain ⟨service, correlationId, number⟩ := p
  obtain ⟨service', correlationId', number'⟩ := q
  simp only [Before, UInt8.lt_iff_toNat_lt, UInt32.lt_iff_toNat_lt, ← UInt8.toNat_inj,
    ← UInt32.toNat_inj] at hpq hqp
  have hcode : service.code = service'.code := UInt8.toNat_inj.mp (by omega)
  have hservice : service = service' := Option.some.inj
    ((ServiceType.ofCode?_eq_some_iff.mpr rfl).symm.trans (ServiceType.ofCode?_eq_some_iff.mpr hcode))
  have hcorrelation : correlationId = correlationId' := UInt32.toNat_inj.mp (by omega)
  have hnumber : number = number' := by omega
  rw [hservice, hcorrelation, hnumber]

/-- Two messages with different numbers never tie. -/
theorem before_of_not_before {p q : Priority} (h : ¬ Before q p) (hn : p.number ≠ q.number) :
    Before p q :=
  Decidable.byContradiction fun htie => hn (congrArg number (eq_of_not_before htie h))

/-! ## Sorting -/

/-- Priorities in the order in which their messages leave. -/
def sort (ps : List Priority) : List Priority :=
  ps.mergeSort fun p q => ¬ Before q p

/-- **Messages leave in one order only**: what has the priorities in order has them as they are sorted. -/
theorem sort_eq_of_perm {ps qs : List Priority} (hperm : ps.Perm qs) (hqs : qs.Pairwise Before) :
    sort ps = qs := by
  have hsorted : (sort ps).Pairwise fun p q => ¬ Before q p := by
    have htrans (p q r : Priority) (hpq : ¬ Before q p) (hqr : ¬ Before r q) : ¬ Before r p := by
      intro hrp
      by_cases htie : Before p q
      · exact hqr (hrp.trans htie)
      · exact hqr (eq_of_not_before htie hpq ▸ hrp)
    have htotal (p q : Priority) : ¬ Before q p ∨ ¬ Before p q := by
      by_cases hqp : Before q p
      · exact Or.inr hqp.asymm
      · exact Or.inl hqp
    have hpairwise : (sort ps).Pairwise fun p q => decide (¬ Before q p) = true :=
      List.pairwise_mergeSort (by simpa using htrans) (by simpa using htotal) ps
    exact hpairwise.imp fun h => of_decide_eq_true h
  have hordered : qs.Pairwise fun p q => ¬ Before q p := hqs.imp Before.asymm
  exact ((List.mergeSort_perm ps _).trans hperm).eq_of_pairwise
    (fun p q _ _ hqp hpq => eq_of_not_before hpq hqp) hsorted hordered

end Priority

/-- The place of a submission in the queue. -/
def Submission.priority (s : Submission) : Priority where
  service := s.service
  correlationId := s.correlationId
  number := s.number

/-! ## The queue -/

/-- Adds a submission to a queue, in front of all that leave after it. -/
def enqueue (s : Submission) : List Submission → List Submission
  | [] => [s]
  | t :: ts => if s.priority.Before t.priority then s :: t :: ts else t :: enqueue s ts

theorem perm_enqueue (s : Submission) (queue : List Submission) :
    (enqueue s queue).Perm (s :: queue) := by
  induction queue with
  | nil => exact List.Perm.refl _
  | cons t ts ih =>
    unfold enqueue
    split
    · exact List.Perm.refl _
    · exact (ih.cons t).trans (List.Perm.swap s t ts)

theorem mem_enqueue {s t : Submission} {q : List Submission} :
    t ∈ enqueue s q ↔ t = s ∨ t ∈ q :=
  (perm_enqueue s q).mem_iff.trans List.mem_cons

theorem length_enqueue (s : Submission) (q : List Submission) :
    (enqueue s q).length = q.length + 1 :=
  (perm_enqueue s q).length_eq

/-- A queue stays in order when a submission with a number of its own is added. -/
theorem pairwise_enqueue {s : Submission} {q : List Submission}
    (hq : q.Pairwise fun t u => t.priority.Before u.priority)
    (hn : ∀ t ∈ q, t.number ≠ s.number) :
    (enqueue s q).Pairwise fun t u => t.priority.Before u.priority := by
  induction q with
  | nil => simp [enqueue]
  | cons t q ih =>
    rw [List.pairwise_cons] at hq
    unfold enqueue
    split
    · rename_i h
      rw [List.pairwise_cons, List.pairwise_cons]
      refine ⟨?_, hq⟩
      intro u hu
      rcases List.mem_cons.mp hu with rfl | hu
      · exact h
      · exact h.trans (hq.1 u hu)
    · rename_i h
      rw [List.pairwise_cons]
      refine ⟨?_, ih hq.2 fun u hu => hn u (List.mem_cons_of_mem _ hu)⟩
      intro u hu
      rcases mem_enqueue.mp hu with rfl | hu
      · exact Priority.before_of_not_before h (hn t List.mem_cons_self)
      · exact hq.1 u hu

/-- **Adding a submission to a queue sorts it in.** -/
theorem map_priority_enqueue {s : Submission} {q : List Submission}
    (hq : q.Pairwise fun t u => t.priority.Before u.priority)
    (hn : ∀ t ∈ q, t.number ≠ s.number) :
    (enqueue s q).map Submission.priority = Priority.sort (s.priority :: q.map Submission.priority) := by
  have hperm : (s.priority :: q.map Submission.priority).Perm ((enqueue s q).map Submission.priority) :=
    (perm_enqueue s q).symm.map Submission.priority
  exact (Priority.sort_eq_of_perm hperm (List.pairwise_map.mpr (pairwise_enqueue hq hn))).symm

end HeadLink
