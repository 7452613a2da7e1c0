import HeadLink.Proofs.Courses

/-!
# What becomes of a message

Every accepted message goes its own way: it waits in the queue, a worker takes it into its hands, and it ends,
or it ends without having been in anybody's hands. The journal says all of it. What it says of one message is
the account of that message, and the account fits the situation that the message is in: nothing while it
waits; that it was taken and which frames were handed over while a worker holds it; and a complete story when
it has ended (`Submission.Ends`).

A step of a worker concerns one message at most (`Outbox.Work.concerns`); for all others the outbox is the same
(`Outbox.Same`). What has ended is concerned by nothing.

## Contents
- **Accounts.** `Entry.number?` and `Outbox.account`.
- **Situations.** `Ending`, `Situation`, `Outbox.At` and which situation `Leads` to which; a message is in one
  situation only (`Traced.at_unique`).
- **Frames.** `Outbox.Same` and what keeps it.
- **Changes.** `Outbox.Accounted` is kept by all changes, and each message is led on
  (`Accounted.change`, `Accounted.changes`).
-/

namespace HeadLink

/-! ## Accounts -/

/-- The entry that notes a frame that was handed over. -/
def Written.entry (w : Written) : Entry := .written w.origin w.frame w.failure

/-- The number of the message that an entry is about. -/
def Entry.number? : Entry → Option Nat
  | .written (.message number _) _ _ => some number
  | .told (.fault (.sending s) _) => some s.number
  | .taken s | .dropped s => some s.number
  | _ => none

/-- What a journal says of a message. -/
def accountOf (n : Nat) (journal : List Entry) : List Entry :=
  journal.filter fun e => e.number? = some n

theorem accountOf_append (n : Nat) (journal entries : List Entry) :
    accountOf n (journal ++ entries) = accountOf n journal ++ accountOf n entries :=
  List.filter_append ..

theorem accountOf_of_all {n : Nat} {entries : List Entry} (h : ∀ e ∈ entries, e.number? = some n) :
    accountOf n entries = entries := by
  apply List.filter_eq_self.mpr
  intro e he
  exact decide_eq_true (h e he)

theorem accountOf_of_none {n : Nat} {entries : List Entry} (h : ∀ e ∈ entries, e.number? ≠ some n) :
    accountOf n entries = [] := by
  apply List.filter_eq_nil_iff.mpr
  intro e he
  simpa using h e he

/-- What is said of another message does not count. -/
theorem accountOf_append_of_other {n m : Nat} (hn : n ≠ m) (journal : List Entry) {entries : List Entry}
    (h : ∀ e ∈ entries, e.number? = some m) : accountOf n (journal ++ entries) = accountOf n journal := by
  have hnone : accountOf n entries = [] := by
    apply accountOf_of_none
    intro e he heq
    exact hn (Option.some.inj (heq.symm.trans (h e he)))
  rw [accountOf_append, hnone, List.append_nil]

/-- Of several messages that are dropped, each is dropped once. -/
theorem accountOf_dropped {queue : List Submission} (hnodup : (queue.map Submission.number).Nodup)
    {s : Submission} (hs : s ∈ queue) : accountOf s.number (queue.map .dropped) = [.dropped s] := by
  induction queue with
  | nil => cases hs
  | cons t ts ih =>
    rw [List.map_cons, List.nodup_cons] at hnodup
    rw [List.map_cons, ← List.singleton_append, accountOf_append]
    rcases List.mem_cons.mp hs with rfl | hs
    · rw [accountOf_of_all (by simp [Entry.number?]), accountOf_of_none, List.append_nil]
      intro e he heq
      obtain ⟨t, ht, rfl⟩ := List.mem_map.mp he
      have hnumber : t.number = s.number := Option.some.inj heq
      exact hnodup.1 (hnumber ▸ List.mem_map_of_mem ht)
    · rw [accountOf_of_none, List.nil_append, ih hnodup.2 hs]
      intro e he heq
      rw [List.mem_singleton.mp he] at heq
      have hnumber : t.number = s.number := Option.some.inj heq
      exact hnodup.1 (hnumber ▸ List.mem_map_of_mem hs)

/-- A notice that reports no message is about none. -/
theorem Entry.number?_told {n : Notice} (h : n.reported? = none) : (Entry.told n).number? = none := by
  unfold Notice.reported? at h
  split at h
  · cases h
  · rename_i hother
    unfold Entry.number?
    split
    · rename_i heq
      cases heq
    · rename_i s cause heq
      cases heq
      exact absurd rfl (hother s cause)
    · rename_i heq
      cases heq
    · rename_i heq
      cases heq
    · rfl

/-- The account of a message in a journal. -/
def Outbox.account (o : Outbox) (n : Nat) : List Entry := accountOf n o.journal

/-! ## Situations -/

/-- The submission that an accepted message becomes. -/
def Outbound.numbered (x : Outbound) (number : Nat) : Submission := { x with number }

theorem Submission.Logged.eq_numbered {log : List Outbound} {s : Submission} {x : Outbound}
    (h : s.Logged log) (hx : log[s.number]? = some x) : s = x.numbered s.number := by
  have hsame : s.toOutbound = x := Option.some.inj (h.symm.trans hx)
  rw [← hsame]
  rfl

/-- Two submissions of a log with the same number are the same. -/
theorem Submission.Logged.eq_of_number {log : List Outbound} {s t : Submission} (hs : s.Logged log)
    (ht : t.Logged log) (h : s.number = t.number) : s = t := by
  have hx : log[t.number]? = some s.toOutbound := by
    rw [← h]
    exact hs
  rw [ht.eq_numbered hx, ← h]
  rfl

/-- How the way of a message ends. -/
inductive Ending where
  | written
  | reported (fault : Fault)
  | dropped
  deriving DecidableEq

/-- Where a message is on its way. -/
inductive Situation where
  | queued
  | held
  | ended (ending : Ending)
  deriving DecidableEq

/-- The message has not ended. -/
def Situation.IsOpen : Situation → Prop
  | .queued | .held => True
  | .ended _ => False

/-- **How a message can end**, and all that the journal says of it then. -/
inductive Submission.Ends {σ : Type} (env : Environment σ) (s : Submission) :
    Ending → List Entry → Prop
  /-- All its frames are handed over, in order. -/
  | written {message : UInt32} {frames : List Frame} (split : s.frames? env message = .ok frames) :
      Ends env s .written (.taken s :: (s.sent message frames).map Written.entry)
  /-- Its frames are handed over up to one that fails. -/
  | failed {message : UInt32} {frames left : List Frame} {last : Frame} {causes : List String}
      (split : s.frames? env message = .ok (frames ++ last :: left)) :
      Ends env s (.reported (.transport (.failed causes)))
        (.taken s
          :: (s.sent message frames
            ++ [(⟨.message s.number message, last, some causes⟩ : Written)]).map Written.entry
          ++ [.told (.fault (.sending s) (.transport (.failed causes)))])
  /-- None of its frames is handed over, because its session is not started or it cannot be split. -/
  | refused {fault : Fault}
      (why : fault = .notStarted s.session ∨ ∃ message, s.frames? env message = .error fault) :
      Ends env s (.reported fault) [.taken s, .told (.fault (.sending s) fault)]
  | dropped : Ends env s .dropped [.dropped s]

/-- What an entry says of how a message has ended. -/
def Entry.ending? : Entry → Option Ending
  | .told (.fault (.sending _) fault) => some (.reported fault)
  | .dropped _ => some .dropped
  | _ => none

theorem findSome?_ending_written (written : List Written) :
    (written.map Written.entry).findSome? Entry.ending? = none := by
  apply List.findSome?_eq_none_iff.mpr
  intro e he
  obtain ⟨w, -, rfl⟩ := List.mem_map.mp he
  rfl

/-- The journal tells how a message has ended. -/
theorem Submission.Ends.ending_eq {σ : Type} {env : Environment σ} {s : Submission} {ending : Ending}
    {entries : List Entry} (h : s.Ends env ending entries) :
    (entries.findSome? Entry.ending?).getD .written = ending := by
  have htaken : (Entry.taken s).ending? = none := rfl
  cases h with
  | written split =>
    rw [List.findSome?_cons, htaken, findSome?_ending_written]
    rfl
  | failed split =>
    rw [List.cons_append, List.findSome?_cons, htaken, List.findSome?_append, findSome?_ending_written]
    rfl
  | refused why => rfl
  | dropped => rfl

/-- Which situation can come next: a message is taken from the queue or dropped from it; it is held until it
    is written or a frame of it fails; and what has ended stays as it is. -/
inductive Situation.Leads : Situation → Situation → Prop
  | stay {p : Situation} : Leads p p
  | takeOn : Leads .queued .held
  | refuse {fault : Fault} : Leads .queued (.ended (.reported fault))
  | drop : Leads .queued (.ended .dropped)
  | finish : Leads .held (.ended .written)
  | giveUp {causes : List String} : Leads .held (.ended (.reported (.transport (.failed causes))))

/-- What has ended stays as it is. -/
theorem eq_of_leads_ended {ending : Ending} {p : Situation}
    (h : Relation.ReflTransGen Situation.Leads (.ended ending) p) : p = .ended ending := by
  induction h with
  | refl => rfl
  | tail _ hnext ih =>
    subst ih
    cases hnext
    rfl

/-- What is held is not refused any more: it is written, or a frame of it fails. -/
theorem cases_of_leads_held {p : Situation} (h : Relation.ReflTransGen Situation.Leads .held p) :
    p = .held ∨ p = .ended .written ∨ ∃ causes, p = .ended (.reported (.transport (.failed causes))) := by
  induction h with
  | refl => exact Or.inl rfl
  | tail _ hnext ih =>
    rcases ih with rfl | rfl | ⟨causes, rfl⟩
    · cases hnext with
      | stay => exact Or.inl rfl
      | finish => exact Or.inr (Or.inl rfl)
      | giveUp => exact Or.inr (Or.inr ⟨_, rfl⟩)
    · cases hnext
      exact Or.inr (Or.inl rfl)
    · cases hnext
      exact Or.inr (Or.inr ⟨causes, rfl⟩)

namespace Outbox

variable {σ : Type}

/-- The message is in the situation, and its account fits. -/
def At (env : Environment σ) (o : Outbox) (s : Submission) : Situation → Prop
  | .queued => s ∈ o.queue ∧ o.account s.number = []
  | .held => ∃ id g, o.grip id = some g ∧ g.job.submission = s
      ∧ ∃ written, g.Wrote env written ∧ o.account s.number = .taken s :: written.map Written.entry
  | .ended ending => (∀ t ∈ o.queue, t.number ≠ s.number)
      ∧ (∀ id g, o.grip id = some g → g.job.submission.number ≠ s.number)
      ∧ s.Ends env ending (o.account s.number)

variable {env : Environment σ} {allowed : Frame → Prop} {log new : List Outbound} {blocks : List Block}
  {o o' o'' : Outbox} {s : Submission} {p p' : Situation} {n : Nat}

theorem numbers_of_grip {id : Nat} {g : Grip} (h : o.grip id = some g) :
    o.numbers id = some g.job.submission.number := congrArg (Option.map _) h

/-- What is in somebody's hands is not in the queue. -/
theorem Traced.not_mem_of_grip (h : Traced env allowed log blocks o) {id : Nat} {g : Grip}
    (hg : o.grip id = some g) : ∀ t ∈ o.queue, t.number ≠ g.job.submission.number := by
  intro t ht hnumber
  apply h.apart.not_mem (numbers_of_grip hg)
  rw [← hnumber]
  exact List.mem_append_left _ (List.mem_map_of_mem ht)

/-- A number is in the hands of one worker at most. -/
theorem Traced.eq_of_grip (h : Traced env allowed log blocks o) {id id' : Nat} {g g' : Grip}
    (hg : o.grip id = some g) (hg' : o.grip id' = some g')
    (hsame : g'.job.submission.number = g.job.submission.number) : id' = id :=
  h.apart.inj (hsame ▸ numbers_of_grip hg') (numbers_of_grip hg)

/-- **A message is in one situation only.** -/
theorem Traced.at_unique (h : Traced env allowed log blocks o) (hp : o.At env s p)
    (hp' : o.At env s p') : p = p' := by
  -- who holds it does not have it in the queue, and what has ended is in neither place
  have hheld : o.At env s .held → s ∉ o.queue := by
    rintro ⟨id, g, hg, rfl, -⟩ hmem
    exact h.not_mem_of_grip hg _ hmem rfl
  have hended : ∀ {ending}, o.At env s (.ended ending) → s ∉ o.queue ∧ ¬ o.At env s .held := by
    rintro ending ⟨hqueue, hgrip, -⟩
    refine ⟨fun hmem => hqueue s hmem rfl, ?_⟩
    rintro ⟨id, g, hg, rfl, -⟩
    exact hgrip id g hg rfl
  cases p with
  | queued =>
    cases p' with
    | queued => rfl
    | held => exact absurd hp.1 (hheld hp')
    | ended ending => exact absurd hp.1 (hended hp').1
  | held =>
    cases p' with
    | queued => exact absurd hp'.1 (hheld hp)
    | held => rfl
    | ended ending => exact absurd hp (hended hp').2
  | ended ending =>
    cases p' with
    | queued => exact absurd hp'.1 (hended hp).1
    | held => exact absurd hp' (hended hp).2
    | ended ending' => rw [← hp.2.2.ending_eq, ← hp'.2.2.ending_eq]

/-! ## Frames -/

/-- For the message of a number nothing has changed. -/
structure Same (n : Nat) (o o' : Outbox) : Prop where
  account : o'.account n = o.account n
  queue : ∀ t : Submission, t.number = n → (t ∈ o'.queue ↔ t ∈ o.queue)
  grip : ∀ id g, g.job.submission.number = n → (o'.grip id = some g ↔ o.grip id = some g)

/-- Only the queue, the journal and what is in the hands of workers matter. -/
theorem Same.of_eq (n : Nat) (hqueue : o'.queue = o.queue) (hgrip : o'.grip = o.grip)
    (hjournal : o'.journal = o.journal) : Same n o o' where
  account := congrArg (accountOf n) hjournal
  queue t _ := by rw [hqueue]
  grip id g _ := by rw [hgrip]

theorem Same.trans (h : Same n o o') (h' : Same n o' o'') : Same n o o'' where
  account := h'.account.trans h.account
  queue t ht := (h'.queue t ht).trans (h.queue t ht)
  grip id g hg := (h'.grip id g hg).trans (h.grip id g hg)

theorem account_note (o : Outbox) (e : Entry) (n : Nat) :
    (o.note e).account n = o.account n ++ accountOf n [e] := accountOf_append ..

theorem Same.note {e : Entry} (he : e.number? ≠ some n) (o : Outbox) : Same n o (o.note e) where
  account := by
    rw [account_note, accountOf_of_none (by simpa using he), List.append_nil]
  queue _ _ := Iff.rfl
  grip _ _ _ := Iff.rfl

/-- Another message changes hands. -/
theorem Same.setGrip {id : Nat} {g' : Option Grip}
    (hbefore : ∀ g, o.grip id = some g → g.job.submission.number ≠ n)
    (hafter : ∀ g, g' = some g → g.job.submission.number ≠ n) : Same n o (o.setGrip id g') where
  account := rfl
  queue _ _ := Iff.rfl
  grip id' g hg := by
    show Function.update o.grip id g' id' = some g ↔ _
    by_cases hid : id' = id
    · subst hid
      rw [Function.update_self]
      constructor
      · exact fun hnew => absurd hg (hafter g hnew)
      · exact fun hold => absurd hg (hbefore g hold)
    · rw [Function.update_of_ne hid]

/-- Another message leaves the queue. -/
theorem Same.take {t : Submission} {queue : List Submission} (hqueue : o.queue = t :: queue)
    (hne : t.number ≠ n) : Same n o (o.take t queue) where
  account := (Same.note (e := .taken t) (fun h => hne (Option.some.inj h)) o).account
  queue u hu := by
    show u ∈ queue ↔ u ∈ o.queue
    rw [hqueue, List.mem_cons]
    constructor
    · exact Or.inr
    · rintro (rfl | hmem)
      · exact absurd hu hne
      · exact hmem
  grip _ _ _ := Iff.rfl

/-- A message stays in its situation if nothing changes for it. -/
theorem Same.at (h : Same s.number o o') (hp : o.At env s p) : o'.At env s p := by
  cases p with
  | queued => exact ⟨(h.queue s rfl).mpr hp.1, h.account.trans hp.2⟩
  | held =>
    obtain ⟨id, g, hg, hs, written, hwrote, haccount⟩ := hp
    exact ⟨id, g, (h.grip id g (by rw [hs])).mpr hg, hs, written, hwrote, h.account.trans haccount⟩
  | ended ending =>
    obtain ⟨hqueue, hgrip, hends⟩ := hp
    refine ⟨?_, ?_, h.account ▸ hends⟩
    · intro t ht hnumber
      exact hqueue t ((h.queue t hnumber).mp ht) hnumber
    · intro id g hg hnumber
      exact hgrip id g ((h.grip id g hnumber).mp hg) hnumber

/-! ## Changes -/

/-- **The accounts of all messages fit their situations.** Nothing is said of messages that are not in the
    log. -/
structure Accounted (env : Environment σ) (allowed : Frame → Prop) (log : List Outbound) (o : Outbox) :
    Prop where
  locked : o.Locked
  traced : ∃ blocks, Traced env allowed log blocks o
  known : ∀ n, log.length ≤ n → o.account n = []
  situated : ∀ s : Submission, s.Logged log → ∃ p, o.At env s p

namespace Accounted

/-- Nothing is said of what waits in the queue. -/
theorem at_queued (h : Accounted env allowed log o) (hs : s ∈ o.queue) : o.At env s .queued := by
  obtain ⟨blocks, htraced⟩ := h.traced
  obtain ⟨p, hp⟩ := h.situated s (htraced.queued s hs)
  cases p with
  | queued => exact hp
  | held =>
    obtain ⟨id, g, hg, rfl, -⟩ := hp
    exact absurd rfl (htraced.not_mem_of_grip hg _ hs)
  | ended ending => exact absurd rfl (hp.1 s hs)

/-- The account of what a worker holds is that it was taken, and what the worker has handed over. -/
theorem account_held (h : Accounted env allowed log o) {id : Nat} {g : Grip} (hg : o.grip id = some g) :
    ∃ written, g.Wrote env written
      ∧ o.account g.job.submission.number = .taken g.job.submission :: written.map Written.entry := by
  obtain ⟨blocks, htraced⟩ := h.traced
  obtain ⟨p, hp⟩ := h.situated g.job.submission (htraced.held hg)
  cases p with
  | queued => exact absurd rfl (htraced.not_mem_of_grip hg _ hp.1)
  | held =>
    obtain ⟨id', g', hg', hsame, written, hwrote, haccount⟩ := hp
    have hid := htraced.eq_of_grip hg hg' (congrArg Submission.number hsame)
    rw [hid, hg] at hg'
    cases hg'
    exact ⟨written, hwrote, haccount⟩
  | ended ending => exact absurd rfl (hp.2.1 id g hg)

/-- After a worker lets go of a message, it is neither in the queue nor in anybody's hands. -/
theorem gone (h : Accounted env allowed log o) {id : Nat} {g : Grip} (hg : o.grip id = some g) :
    (∀ t ∈ o.queue, t.number ≠ g.job.submission.number)
      ∧ ∀ id' g', Function.update o.grip id none id' = some g' →
        g'.job.submission.number ≠ g.job.submission.number := by
  obtain ⟨blocks, htraced⟩ := h.traced
  refine ⟨htraced.not_mem_of_grip hg, ?_⟩
  intro id' g' hg' hsame
  obtain ⟨hne, hbefore⟩ := update_none_eq_some hg'
  exact hne (htraced.eq_of_grip hg hbefore hsame)

/-- After a message has left the queue, it is not in it, and nobody holds it yet. -/
theorem left (h : Accounted env allowed log o) {t : Submission} {queue : List Submission}
    (hqueue : o.queue = t :: queue) :
    (∀ u ∈ queue, u.number ≠ t.number) ∧ ∀ id g, o.grip id = some g → g.job.submission.number ≠ t.number := by
  obtain ⟨blocks, htraced⟩ := h.traced
  have hmem : t ∈ o.queue := hqueue ▸ List.mem_cons_self
  have hnodup := (List.nodup_append.mp htraced.apart.nodup).1
  rw [hqueue, List.map_cons, List.nodup_cons] at hnodup
  constructor
  · intro u hu hnumber
    exact hnodup.1 (hnumber ▸ List.mem_map_of_mem hu)
  · intro id g hg hnumber
    exact htraced.not_mem_of_grip hg t hmem hnumber.symm

end Accounted

/-- The step concerns the message, which has not ended before it. -/
structure Concerns (env : Environment σ) (log : List Outbound) (t : Submission) (o o' : Outbox) : Prop where
  logged : t.Logged log
  leads : ∃ p p', o.At env t p ∧ o'.At env t p' ∧ p.Leads p' ∧ p.IsOpen
  others : ∀ n, n ≠ t.number → Same n o o'

/-- On a session that is not started nothing is prepared, and no id is used. -/
theorem prepared_of_not_started (h : o.sessions.get? s.session = none) :
    o.prepared env s = .error (.notStarted s.session) ∧ o.idAfter s = o.lastMessage := by
  have hrequire : o.sessions.requireStarted s.session = .error (.notStarted s.session) := by
    unfold Sessions.requireStarted Sessions.version?
    rw [h]
    rfl
  unfold prepared idAfter
  rw [hrequire]
  exact ⟨rfl, rfl⟩

/-- What cannot be prepared on a started session cannot be split. -/
theorem frames?_of_started (h : o.sessions.get? s.session ≠ none) {fault : Fault}
    (hprepared : o.prepared env s = .error fault) : ∃ message, s.frames? env message = .error fault := by
  obtain ⟨state, hstate⟩ := Option.ne_none_iff_exists'.mp h
  have hrequire : o.sessions.requireStarted s.session = .ok state.version := by
    unfold Sessions.requireStarted Sessions.version?
    rw [hstate]
    rfl
  unfold prepared at hprepared
  rw [hrequire] at hprepared
  dsimp only at hprepared
  cases hframes : s.frames? env (o.lastMessage + 1) with
  | ok frames =>
    rw [hframes] at hprepared
    cases hprepared
  | error cause =>
    rw [hframes] at hprepared
    cases hprepared
    exact ⟨_, hframes⟩

/-- A worker takes a message and refuses it. -/
theorem Accounted.refuse (h : Accounted env allowed log o) {t : Submission} {queue : List Submission}
    {fault : Fault} (hqueue : o.queue = t :: queue) (hprepared : o.prepared env t = .error fault) :
    Concerns env log t o ((o.take t queue).note (.told (.fault (.sending t) fault))) := by
  obtain ⟨blocks, htraced⟩ := h.traced
  have hmem : t ∈ o.queue := hqueue ▸ List.mem_cons_self
  have hqueued := h.at_queued hmem
  obtain ⟨hrest, hgrip⟩ := h.left hqueue
  refine ⟨htraced.queued t hmem,
    ⟨_, .ended (.reported fault), hqueued, ⟨hrest, hgrip, ?_⟩, .refuse, trivial⟩, ?_⟩
  · have haccount : ((o.take t queue).note (.told (.fault (.sending t) fault))).account t.number
        = [.taken t, .told (.fault (.sending t) fault)] := by
      have htake : (o.take t queue).account t.number = o.account t.number ++ [.taken t] := by
        rw [show (o.take t queue).account t.number = (o.note (.taken t)).account t.number from rfl,
          account_note, accountOf_of_all (by simp [Entry.number?])]
      rw [account_note, htake, hqueued.2, accountOf_of_all (by simp [Entry.number?])]
      rfl
    rw [haccount]
    apply Submission.Ends.refused
    by_cases hsession : o.sessions.get? t.session = none
    · rw [(prepared_of_not_started hsession).1] at hprepared
      cases hprepared
      exact Or.inl rfl
    · exact Or.inr (frames?_of_started hsession hprepared)
  · intro n hn
    have hother : (Entry.told (.fault (.sending t) fault)).number? ≠ some n :=
      fun heq => hn (Option.some.inj heq).symm
    exact (Same.take hqueue hn.symm).trans (Same.note hother _)

/-- A message that is started is in the hands of the worker. -/
theorem startJob_eq (o : Outbox) (id : Nat) (job : Job) :
    (o.startJob id job).queue = o.queue ∧ (o.startJob id job).journal = o.journal
      ∧ ∃ hold, (o.startJob id job).grip = Function.update o.grip id (some ⟨job, hold⟩)
        ∧ (hold = .waiting ∨ hold = .writing) := by
  unfold startJob
  split
  · exact ⟨rfl, rfl, .writing, rfl, Or.inr rfl⟩
  · exact ⟨rfl, rfl, .waiting, rfl, Or.inl rfl⟩

/-- A worker takes a message on. -/
theorem Accounted.takeOn (h : Accounted env allowed log o) {id : Nat} {t : Submission}
    {queue : List Submission} {job : Job} (hgrip : o.grip id = none) (hqueue : o.queue = t :: queue)
    (hprepared : o.prepared env t = .ok job) :
    Concerns env log t o ((o.take t queue).startJob id job) := by
  obtain ⟨blocks, htraced⟩ := h.traced
  have hmem : t ∈ o.queue := hqueue ▸ List.mem_cons_self
  have hqueued := h.at_queued hmem
  obtain ⟨hsubmission, hframes⟩ := prepared_eq_ok hprepared
  rw [← hsubmission] at hframes
  obtain ⟨hstartQueue, hstartJournal, hold, hstartGrip, hhold⟩ := startJob_eq (o.take t queue) id job
  have hwrote : (⟨job, hold⟩ : Grip).Wrote env [] := by
    rcases hhold with rfl | rfl
    · exact ⟨rfl, hframes⟩
    · exact ⟨[], rfl, hframes⟩
  refine ⟨htraced.queued t hmem, ⟨_, .held, hqueued, ?_, .takeOn, trivial⟩, ?_⟩
  · refine ⟨id, ⟨job, hold⟩, ?_, hsubmission, [], hwrote, ?_⟩
    · rw [hstartGrip, Function.update_self]
    · unfold account
      rw [hstartJournal]
      show (o.note (.taken t)).account t.number = _
      rw [account_note, hqueued.2, accountOf_of_all (by simp [Entry.number?])]
      rfl
  · intro n hn
    have hset : Same n (o.take t queue) ((o.take t queue).setGrip id (some ⟨job, hold⟩)) := by
      apply Same.setGrip
      · intro g hg
        cases hgrip.symm.trans hg
      · rintro g ⟨⟩
        rw [hsubmission]
        exact hn.symm
    have hstart : Same n ((o.take t queue).setGrip id (some ⟨job, hold⟩))
        ((o.take t queue).startJob id job) := .of_eq n hstartQueue hstartGrip hstartJournal
    exact ((Same.take hqueue hn.symm).trans hset).trans hstart

/-- A worker goes on with its message. -/
theorem Accounted.progress (h : Accounted env allowed log o) {id : Nat} {g : Grip}
    (hg : o.grip id = some g) (g' : Grip) (new : List Written) (hsame : g'.job.submission = g.job.submission)
    (hwrote : ∀ written, g.Wrote env written → g'.Wrote env (written ++ new))
    (hnew : ∀ e ∈ new.map Written.entry, e.number? = some g.job.submission.number) :
    Concerns env log g.job.submission o
      (setGrip { o with journal := o.journal ++ new.map Written.entry } id (some g')) := by
  obtain ⟨blocks, htraced⟩ := h.traced
  obtain ⟨written, hwritten, haccount⟩ := h.account_held hg
  have hbefore : o.At env g.job.submission .held := ⟨id, g, hg, rfl, written, hwritten, haccount⟩
  refine ⟨htraced.held hg, ⟨_, .held, hbefore, ?_, .stay, trivial⟩, ?_⟩
  · refine ⟨id, g', Function.update_self .., hsame, written ++ new, hwrote written hwritten, ?_⟩
    show accountOf _ (o.journal ++ new.map Written.entry) = _
    rw [accountOf_append, accountOf_of_all hnew, List.map_append, ← List.cons_append, ← haccount]
    rfl
  · intro n hn
    have hnote : Same n o { o with journal := o.journal ++ new.map Written.entry } := by
      refine ⟨?_, fun _ _ => Iff.rfl, fun _ _ _ => Iff.rfl⟩
      exact accountOf_append_of_other hn o.journal hnew
    refine hnote.trans (Same.setGrip ?_ ?_)
    · intro g₁ hg₁
      cases hg.symm.trans hg₁
      exact hn.symm
    · rintro g₁ ⟨⟩
      rw [hsame]
      exact hn.symm

/-- A worker lets go of its message, which has ended. -/
theorem Accounted.letGo (h : Accounted env allowed log o) {id : Nat} {g : Grip} (hg : o.grip id = some g)
    (entries : List Entry) (hentries : ∀ e ∈ entries, e.number? = some g.job.submission.number)
    {ending : Ending} (hleads : Situation.Leads .held (.ended ending))
    (hends : ∀ written, g.Wrote env written → g.job.submission.Ends env ending
      (.taken g.job.submission :: written.map Written.entry ++ entries))
    {o₁ : Outbox} (hqueue : o₁.queue = o.queue) (hgrip : o₁.grip = o.grip)
    (hjournal : o₁.journal = o.journal ++ entries) :
    Concerns env log g.job.submission o (o₁.setGrip id none) := by
  obtain ⟨blocks, htraced⟩ := h.traced
  obtain ⟨written, hwritten, haccount⟩ := h.account_held hg
  obtain ⟨hrest, hothers⟩ := h.gone hg
  refine ⟨htraced.held hg, ⟨.held, _, ⟨id, g, hg, rfl, written, hwritten, haccount⟩, ?_, hleads, trivial⟩, ?_⟩
  · refine ⟨hqueue ▸ hrest, ?_, ?_⟩
    · intro id' g' hg'
      rw [← hgrip] at hothers
      exact hothers id' g' hg'
    · show g.job.submission.Ends env ending (accountOf _ o₁.journal)
      rw [hjournal, accountOf_append, accountOf_of_all hentries]
      have hbefore : accountOf g.job.submission.number o.journal = _ := haccount
      rw [hbefore]
      exact hends written hwritten
  · intro n hn
    have hnote : Same n o o₁ := by
      refine ⟨?_, fun _ _ => by rw [hqueue], fun _ _ _ => by rw [hgrip]⟩
      show accountOf n o₁.journal = accountOf n o.journal
      rw [hjournal]
      exact accountOf_append_of_other hn o.journal hentries
    refine hnote.trans (Same.setGrip ?_ nofun)
    intro g₁ hg₁
    rw [hgrip] at hg₁
    cases hg.symm.trans hg₁
    exact hn.symm

/-- **A step of a worker concerns one message at most.** -/
theorem Work.concerns (work : Work env o o') (h : Accounted env allowed log o) :
    (∀ n, Same n o o') ∨ ∃ t, Concerns env log t o o' := by
  cases work with
  | rest ready workers hsub hnodup hready =>
    exact Or.inl fun n => .of_eq n rfl rfl rfl
  | refuse hqueue hprepared => exact Or.inr ⟨_, h.refuse hqueue hprepared⟩
  | takeOn hturn hworker hgrip hqueue hprepared => exact Or.inr ⟨_, h.takeOn hgrip hqueue hprepared⟩
  | @grant id job hturn hgrip =>
    have hwrote : ∀ written, (⟨job, .waiting⟩ : Grip).Wrote env written →
        (⟨job, .writing⟩ : Grip).Wrote env (written ++ []) := by
      intro written hwritten
      rw [List.append_nil]
      exact wrote_grant hwritten
    have hconcerns := h.progress hgrip ⟨job, .writing⟩ [] rfl hwrote (by simp)
    rw [show o.journal ++ ([] : List Written).map Written.entry = o.journal from List.append_nil _]
      at hconcerns
    exact Or.inr ⟨_, hconcerns⟩
  | @hand id job f left failure hturn hgrip hleft hanswer =>
    exact Or.inr ⟨_, h.progress hgrip ⟨{ job with left }, holdAfter failure⟩
      [⟨job.origin, f, failure⟩] rfl (fun _ => wrote_hand hleft hanswer)
      (by simp [Written.entry, Entry.number?, Job.origin])⟩
  | @finish id job hturn hgrip hleft =>
    refine Or.inr ⟨_, h.letGo hgrip [] (by simp) .finish ?_ rfl rfl (List.append_nil _).symm⟩
    rintro written ⟨frames, rfl, hframes⟩
    rw [hleft, List.append_nil] at hframes
    rw [List.append_nil]
    exact .written hframes
  | @giveUp id job causes hturn hgrip =>
    have hleads : Situation.Leads .held (.ended (.reported (.transport (.failed causes)))) := .giveUp
    refine Or.inr ⟨_, h.letGo hgrip _ (by simp [Entry.number?]) hleads ?_ rfl rfl rfl⟩
    rintro written ⟨frames, last, rfl, -, hframes⟩
    exact .failed hframes

/-- Each message is led on from its situation. To the account of what has ended nothing is added. -/
def Led (env : Environment σ) (log : List Outbound) (o o' : Outbox) : Prop :=
  ∀ s : Submission, s.Logged log → ∀ p, o.At env s p → ∃ p', o'.At env s p' ∧ p.Leads p'
    ∧ ∀ ending, p = .ended ending → o'.account s.number = o.account s.number

theorem Same.led (h : ∀ n, n < log.length → Same n o o') : Led env log o o' := by
  intro s hs p hp
  have hsame := h s.number (List.getElem?_eq_some_iff.mp hs).1
  exact ⟨p, hsame.at hp, .stay, fun _ _ => hsame.account⟩

theorem Concerns.led {t : Submission} (h : Concerns env log t o o')
    (htraced : Traced env allowed log blocks o) : Led env log o o' := by
  intro s hs p hp
  by_cases hn : s.number = t.number
  · obtain ⟨q, q', hq, hq', hleads, hopen⟩ := h.leads
    have hst : s = t := hs.eq_of_number h.logged hn
    subst hst
    obtain rfl := htraced.at_unique hp hq
    refine ⟨q', hq', hleads, ?_⟩
    rintro ending rfl
    exact hopen.elim
  · have hsame := h.others s.number hn
    exact ⟨p, hsame.at hp, .stay, fun _ _ => hsame.account⟩

namespace Accounted

theorem situated_of_led (h : Accounted env allowed log o) (hled : Led env log o o') (s : Submission)
    (hs : s.Logged log) : ∃ p, o'.At env s p := by
  obtain ⟨p, hp⟩ := h.situated s hs
  obtain ⟨p', hp', -⟩ := hled s hs p hp
  exact ⟨p', hp'⟩

/-- The journal is about what it was about before, if only messages of the log are concerned. -/
theorem known_of_same (h : Accounted env allowed log o)
    (hsame : ∀ n, log.length ≤ n → Same n o o') (n : Nat) (hn : log.length ≤ n) : o'.account n = [] :=
  (hsame n hn).account.trans (h.known n hn)

/-- A change for which all is the same. -/
theorem of_same (h : Accounted env allowed log o) (hlocked : o'.Locked)
    (htraced : ∃ blocks, Traced env allowed log blocks o') (hsame : ∀ n, Same n o o') :
    Accounted env allowed log o' ∧ Led env log o o' := by
  have hled : Led env log o o' := Same.led fun n _ => hsame n
  exact ⟨⟨hlocked, htraced, h.known_of_same fun n _ => hsame n, h.situated_of_led hled⟩, hled⟩

/-- A change that concerns one message. -/
theorem of_concerns (h : Accounted env allowed log o) (hlocked : o'.Locked)
    (htraced : ∃ blocks, Traced env allowed log blocks o') {t : Submission}
    (hconcerns : Concerns env log t o o') : Accounted env allowed log o' ∧ Led env log o o' := by
  obtain ⟨blocks, hbefore⟩ := h.traced
  have hled := hconcerns.led hbefore
  refine ⟨⟨hlocked, htraced, h.known_of_same ?_, h.situated_of_led hled⟩, hled⟩
  intro n hn
  apply hconcerns.others
  rintro rfl
  exact Nat.not_lt.mpr hn (List.getElem?_eq_some_iff.mp hconcerns.logged).1

theorem work (h : Accounted env allowed log o) (work : Work env o o') :
    Accounted env allowed log o' ∧ Led env log o o' := by
  obtain ⟨blocks, hbefore⟩ := h.traced
  obtain ⟨more, htraced⟩ := work.traced h.locked hbefore
  have hlocked := work.locked h.locked
  rcases work.concerns h with hsame | ⟨t, hconcerns⟩
  · exact h.of_same hlocked ⟨_, htraced⟩ hsame
  · exact h.of_concerns hlocked ⟨_, htraced⟩ hconcerns

/-- A message is accepted: it waits, and nothing is said of it yet. -/
theorem accept (h : Accounted env allowed log o) (x : Outbound) :
    Accounted env allowed (log ++ [x]) (o.accept x) ∧ Led env log o (o.accept x) := by
  obtain ⟨blocks, htraced⟩ := h.traced
  have hsame : ∀ n, n < log.length → Same n o (o.accept x) := by
    intro n hn
    refine ⟨rfl, ?_, fun _ _ _ => Iff.rfl⟩
    intro t ht
    refine mem_enqueue.trans ⟨?_, Or.inr⟩
    rintro (rfl | hmem)
    · -- the number that is given out is above those of the log
      have hnumber : o.accepted = n := ht
      rw [← htraced.count] at hnumber
      omega
    · exact hmem
  have hled : Led env log o (o.accept x) := Same.led hsame
  refine ⟨⟨h.locked.accept x, ⟨blocks, htraced.accept x⟩, ?_, ?_⟩, hled⟩
  · intro n hn
    rw [List.length_append] at hn
    exact h.known n (Nat.le_of_succ_le hn)
  · intro s hs
    by_cases hlt : s.number < log.length
    · have hlogged : s.Logged log := by
        unfold Submission.Logged at hs ⊢
        rwa [List.getElem?_append_left hlt] at hs
      exact h.situated_of_led hled s hlogged
    · have hle : log.length ≤ s.number := Nat.le_of_not_lt hlt
      have hbound := (List.getElem?_eq_some_iff.mp hs).1
      rw [List.length_append, List.length_singleton] at hbound
      have hnumber : s.number = o.accepted := by
        rw [← htraced.count]
        omega
      have hx : (log ++ [x])[s.number]? = some x := by
        rw [hnumber, ← htraced.count, List.getElem?_concat_length]
      have hnew : s = { x with number := o.accepted } := by
        rw [hs.eq_numbered hx, ← hnumber]
        rfl
      exact ⟨.queued, mem_enqueue.mpr (Or.inl hnew), h.known s.number hle⟩

/-- What waits is dropped; everything else stays as it is. -/
theorem clear (h : Accounted env allowed log o) :
    Accounted env allowed log o.clear ∧ Led env log o o.clear := by
  obtain ⟨blocks, htraced⟩ := h.traced
  have hnodup := (List.nodup_append.mp htraced.apart.nodup).1
  have hclear : ∀ n, o.clear.account n = o.account n ++ accountOf n (o.queue.map .dropped) :=
    fun n => accountOf_append ..
  -- what is not in the queue is not dropped
  have hother : ∀ n, (∀ t ∈ o.queue, t.number ≠ n) → o.clear.account n = o.account n := by
    intro n hn
    rw [hclear, accountOf_of_none, List.append_nil]
    intro e he heq
    obtain ⟨t, ht, rfl⟩ := List.mem_map.mp he
    exact hn t ht (Option.some.inj heq)
  have hled : Led env log o o.clear := by
    intro s hs p hp
    cases p with
    | queued =>
      have hgrip : ∀ id g, o.grip id = some g → g.job.submission.number ≠ s.number :=
        fun id g hg heq => htraced.not_mem_of_grip hg s hp.1 heq.symm
      have hdropped : o.clear.account s.number = [.dropped s] := by
        rw [hclear, hp.2, List.nil_append]
        exact accountOf_dropped hnodup hp.1
      refine ⟨.ended .dropped, ⟨fun _ ht => absurd ht List.not_mem_nil, hgrip, hdropped ▸ .dropped⟩, .drop, ?_⟩
      intro ending hended
      cases hended
    | held =>
      obtain ⟨id, g, hg, rfl, written, hwrote, haccount⟩ := hp
      have hsame := hother _ (htraced.not_mem_of_grip hg)
      refine ⟨.held, ⟨id, g, hg, rfl, written, hwrote, hsame.trans haccount⟩, .stay, ?_⟩
      intro ending hended
      cases hended
    | ended ending =>
      have hsame := hother _ hp.1
      exact ⟨.ended ending, ⟨fun _ ht => absurd ht List.not_mem_nil, hp.2.1, hsame ▸ hp.2.2⟩, .stay,
        fun _ _ => hsame⟩
  refine ⟨⟨h.locked.clear, ⟨blocks, htraced.clear⟩, ?_, h.situated_of_led hled⟩, hled⟩
  intro n hn
  rw [hother, h.known n hn]
  rintro t ht rfl
  exact Nat.not_lt.mpr hn (List.getElem?_eq_some_iff.mp (htraced.queued t ht)).1

/-- **Every change leads each message on**, and keeps the accounts. -/
theorem change (h : Accounted env Frame.OfControl log o) (change : Change env o new o') :
    Accounted env Frame.OfControl (log ++ new) o' ∧ Led env log o o' := by
  obtain ⟨blocks, hbefore⟩ := h.traced
  obtain ⟨more, htraced⟩ := change.traced h.locked hbefore
  have hlocked := change.locked h.locked
  cases change with
  | step step =>
    rw [List.append_nil] at htraced ⊢
    cases step with
    | work hwork => exact h.work hwork
    | request => exact h.of_same hlocked ⟨_, htraced⟩ fun n => .of_eq n rfl rfl rfl
    | control hholder hallowed hanswer =>
      refine h.of_same hlocked ⟨_, htraced⟩ fun n => .note ?_ o
      exact fun heq : none = some n => nomatch heq
    | release hholder => exact h.of_same hlocked ⟨_, htraced⟩ fun n => .of_eq n rfl rfl rfl
  | sessions sessions =>
    rw [List.append_nil] at htraced ⊢
    exact h.of_same hlocked ⟨_, htraced⟩ fun n => .of_eq n rfl rfl rfl
  | tell other =>
    rw [List.append_nil] at htraced ⊢
    refine h.of_same hlocked ⟨_, htraced⟩ fun n => .note ?_ o
    rw [Entry.number?_told other]
    exact nofun
  | accept x => exact h.accept x
  | enlist =>
    rw [List.append_nil] at htraced ⊢
    exact h.of_same hlocked ⟨_, htraced⟩ fun n => .of_eq n rfl rfl rfl
  | clear =>
    rw [List.append_nil]
    exact h.clear

/-- **Any number of changes lead each message on**, one situation after the other. -/
theorem changes (h : Accounted env Frame.OfControl log o) (changes : Changes env o new o') :
    Accounted env Frame.OfControl (log ++ new) o'
      ∧ ∀ s : Submission, s.Logged log → ∀ p, o.At env s p →
        ∃ p', o'.At env s p' ∧ Relation.ReflTransGen Situation.Leads p p'
          ∧ ∀ ending, p = .ended ending → o'.account s.number = o.account s.number := by
  induction changes with
  | refl =>
    rw [List.append_nil]
    exact ⟨h, fun s hs p hp => ⟨p, hp, .refl, fun _ _ => rfl⟩⟩
  | @tail before more o₁ o₂ _ change ih =>
    obtain ⟨h₁, hleads₁⟩ := ih
    obtain ⟨h₂, hled⟩ := h₁.change change
    refine ⟨List.append_assoc log before more ▸ h₂, ?_⟩
    intro s hs p hp
    obtain ⟨p₁, hp₁, hlead, haccount₁⟩ := hleads₁ s hs p hp
    obtain ⟨p₂, hp₂, hnext, haccount₂⟩ := hled s (hs.append before) p₁ hp₁
    refine ⟨p₂, hp₂, hlead.tail hnext, ?_⟩
    rintro ending rfl
    -- what has ended stays ended, so that the second step finds it as it was
    obtain rfl := eq_of_leads_ended hlead
    exact (haccount₂ ending rfl).trans (haccount₁ ending rfl)

end Accounted

end Outbox

end HeadLink
