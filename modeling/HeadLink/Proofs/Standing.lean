import HeadLink.Proofs.Roster

/-!
# Workers stand where they belong

A worker waits because somebody will wake it: an idle one listens to the bell or has a deadline, one that has
asked for the lock gets it when the lock is passed on, one that has made a call goes on when the call is over.
Every other worker can go on, and is in the line of those that run next.

A step takes the worker that runs out of the picture and puts it back at the end (`Link.Midway`); in between,
all others stay in place.

## Contents
- **Order.** `Link.CanGo`, `Link.Placed`, `Link.InOrderBut`, `Link.InOrder`.
- **Small moves.** What waking, signals, bells and the lock keep.
- **In the middle of a step.** `Link.Midway`, and the ways in which a step ends.
- **Steps.** `Link.work_inOrder`; the clock and the caller; `Link.Step.inOrder`.
-/

namespace HeadLink

variable {σ : Type} {env : Environment σ}

/-! ## Order -/

namespace Link

/-- The worker need not wait for anything. -/
def CanGo (l : Link σ) (id : Nat) (w : Worker) : Prop :=
  match w.stage with
  | .seeking | .writing _ => True
  | .idle _ => w.signal ≠ .listening
  | .queueing _ => l.lock.holder = some (.worker id)
  | .calling _ ends _ => ends ≤ l.now

/-- The worker is where it belongs: among those that listen if it listens, and in line if it can go on. -/
structure Placed (l : Link σ) (id : Nat) (w : Worker) : Prop where
  listens : id ∈ l.listeners ↔ w.signal = .listening
  seeks : w.stage = .seeking → w.signal = .off
  inLine : l.CanGo id w → id ∈ l.ready

/-- All workers are in place but the one that is away, and nobody else listens to the bell. -/
structure InOrderBut (away : Option Nat) (l : Link σ) : Prop where
  placed : ∀ {id w}, some id ≠ away → l.workers.get? id = some w → l.Placed id w
  known : ∀ {id}, id ∈ l.listeners → some id ≠ away → ∃ w, l.workers.get? id = some w
  nodup : l.listeners.Nodup

/-- All workers are in place. -/
abbrev InOrder (l : Link σ) : Prop := l.InOrderBut none

end Link

/-! ## Small moves -/

namespace Link

variable {l l' : Link σ} {away : Option Nat} {id : Nat} {s : Signal}

/-- Order depends on the workers, the listeners and the line only; in the line it matters who can go on. -/
theorem InOrderBut.mono (h : l.InOrderBut away) (hworkers : l'.workers = l.workers)
    (hlisteners : l'.listeners = l.listeners)
    (hline : ∀ id w, some id ≠ away → l.workers.get? id = some w → (l.CanGo id w → id ∈ l.ready) →
      l'.CanGo id w → id ∈ l'.ready) : l'.InOrderBut away where
  placed := by
    intro id w haway hw
    rw [hworkers] at hw
    have hplaced := h.placed haway hw
    exact ⟨hlisteners ▸ hplaced.listens, hplaced.seeks, hline id w haway hw hplaced.inLine⟩
  known := by
    rw [hlisteners, hworkers]
    exact h.known
  nodup := hlisteners ▸ h.nodup

/-- Who can go on depends on the clock and on who has the lock. -/
theorem canGo_congr {w : Worker} (hlock : l'.lock.holder = l.lock.holder) (hnow : l'.now = l.now) :
    l'.CanGo id w ↔ l.CanGo id w := by
  unfold CanGo
  rw [hlock, hnow]

/-- Only the line has grown. -/
theorem InOrderBut.of_ready (h : l.InOrderBut away) (hworkers : l'.workers = l.workers)
    (hlisteners : l'.listeners = l.listeners) (hlock : l'.lock.holder = l.lock.holder)
    (hnow : l'.now = l.now) (hready : ∀ id ∈ l.ready, id ∈ l'.ready) : l'.InOrderBut away :=
  h.mono hworkers hlisteners fun _ _ _ _ hgo hcan => hready _ (hgo ((canGo_congr hlock hnow).mp hcan))

theorem mem_ready_wake {id' : Nat} : id' ∈ (l.wake id).ready ↔ id' ∈ l.ready ∨ id' = id := by
  have hready : (l.wake id).ready = Outbox.rouse id l.ready := congrArg Outbox.ready (outbox_wake l id)
  rw [hready]
  exact Outbox.mem_rouse

theorem head?_ready_wake {id' : Nat} (h : l.ready.head? = some id') (id : Nat) :
    (l.wake id).ready.head? = some id' := by
  unfold wake
  split
  · exact h
  · rw [List.head?_append, h]
    rfl

theorem listeners_wake (l : Link σ) (id : Nat) : (l.wake id).listeners = l.listeners := by
  unfold wake
  split <;> rfl

theorem now_wake (l : Link σ) (id : Nat) : (l.wake id).now = l.now :=
  congrArg Roster.now (roster_wake l id)

/-! ### Signals -/

/-- What a signal does to a worker. -/
theorem workers_signal {w : Worker} (hw : l.workers.get? id = some w) :
    (l.signal id s).workers = l.workers.insert id { w with signal := s } := by
  unfold signal
  rw [hw]
  dsimp only
  split
  · exact workers_wake ..
  · rfl

theorem listeners_signal (l : Link σ) (id : Nat) (s : Signal) : (l.signal id s).listeners = l.listeners := by
  unfold signal
  split
  · rfl
  · dsimp only
    split
    · exact listeners_wake ..
    · rfl

theorem mem_ready_signal {id' : Nat} (h : id' ∈ l.ready) : id' ∈ (l.signal id s).ready := by
  unfold signal
  split
  · exact h
  · dsimp only
    split
    · exact mem_ready_wake.mpr (Or.inl h)
    · exact h

theorem head?_ready_signal {id' : Nat} (h : l.ready.head? = some id') :
    (l.signal id s).ready.head? = some id' := by
  unfold signal
  split
  · exact h
  · dsimp only
    split
    · exact head?_ready_wake (l := l.setWorker id _) h id
    · exact h

/-- An idle worker wakes up from a signal. -/
theorem mem_ready_signal_of_idle {w : Worker} (hw : l.workers.get? id = some w) {deadline : Nat}
    (hidle : w.stage = .idle deadline) : id ∈ (l.signal id s).ready := by
  unfold signal
  rw [hw]
  dsimp only
  rw [hidle]
  exact mem_ready_wake.mpr (Or.inr rfl)

theorem lock_signal (l : Link σ) (id : Nat) (s : Signal) : (l.signal id s).lock = l.lock :=
  congrArg Roster.lock (roster_signal l id s)

theorem now_signal (l : Link σ) (id : Nat) (s : Signal) : (l.signal id s).now = l.now :=
  congrArg Roster.now (roster_signal l id s)

/-- **A signal for the first of those that listen** leaves all in order. -/
theorem InOrderBut.signal {rest : List Nat} (h : l.InOrderBut away) (hlisteners : l.listeners = id :: rest)
    (haway : some id ≠ away) (hs : s ≠ .listening) :
    (({ l with listeners := rest } : Link σ).signal id s).InOrderBut away := by
  have hmem : id ∈ l.listeners := by simp [hlisteners]
  obtain ⟨w, hw⟩ := h.known hmem haway
  have hplaced := h.placed haway hw
  have hlistening := hplaced.listens.mp hmem
  have hseeking : w.stage ≠ .seeking := by
    intro hseeking
    cases hlistening.symm.trans (hplaced.seeks hseeking)
  obtain ⟨hleft, hnodup⟩ := List.nodup_cons.mp (hlisteners ▸ h.nodup)
  have hworkers : (({ l with listeners := rest } : Link σ).signal id s).workers
      = l.workers.insert id { w with signal := s } := workers_signal hw
  have hrest : (({ l with listeners := rest } : Link σ).signal id s).listeners = rest := listeners_signal ..
  have hcan : ∀ id' w', (({ l with listeners := rest } : Link σ).signal id s).CanGo id' w'
      ↔ l.CanGo id' w' := fun id' w' =>
    canGo_congr (congrArg WriteLock.holder (lock_signal { l with listeners := rest } id s))
      (now_signal { l with listeners := rest } id s)
  constructor
  · intro id' w' haway' hw'
    rw [hworkers, Table.get?_insert] at hw'
    by_cases hid : id' = id
    · subst hid
      rw [if_pos rfl] at hw'
      cases hw'
      refine ⟨?_, fun hseeks => absurd hseeks hseeking, ?_⟩
      · rw [hrest]
        exact ⟨fun hin => absurd hin hleft, fun heq => absurd heq hs⟩
      · intro hgo
        rw [hcan] at hgo
        -- an idle worker wakes up, and for any other one the signal makes no difference
        cases hstage : w.stage with
        | idle deadline => exact mem_ready_signal_of_idle (l := { l with listeners := rest }) hw hstage
        | seeking => exact absurd hstage hseeking
        | queueing job | writing job | calling job ends failure =>
          apply mem_ready_signal (l := { l with listeners := rest })
          apply hplaced.inLine
          unfold CanGo at hgo ⊢
          dsimp only at hgo
          rw [hstage] at hgo ⊢
          exact hgo
    · rw [if_neg hid] at hw'
      have hother := h.placed haway' hw'
      refine ⟨?_, hother.seeks, ?_⟩
      · rw [hrest, ← hother.listens, hlisteners, List.mem_cons]
        exact ⟨Or.inr, fun hin => hin.resolve_left hid⟩
      · intro hgo
        exact mem_ready_signal (l := { l with listeners := rest }) (hother.inLine ((hcan id' w').mp hgo))
  · intro id' hin haway'
    rw [hrest] at hin
    rw [hworkers, Table.get?_insert]
    by_cases hid : id' = id
    · exact ⟨_, if_pos hid⟩
    · rw [if_neg hid]
      apply h.known _ haway'
      simp [hlisteners, hin]
  · rwa [hrest]

/-- **Bells keep the order**, if nobody who is away listens first. -/
theorem InOrderBut.ring (h : l.InOrderBut away) (hfirst : ∀ id ∈ l.listeners, some id ≠ away) :
    l.ring.InOrderBut away := by
  unfold Link.ring
  split
  · exact h.mono rfl rfl fun _ _ _ _ hgo hcan => hgo hcan
  · rename_i id rest hlisteners
    exact h.signal hlisteners (hfirst id (by simp [hlisteners])) nofun

theorem mem_ready_ring {id' : Nat} (h : id' ∈ l.ready) : id' ∈ l.ring.ready := by
  unfold ring
  split
  · exact h
  · exact mem_ready_signal (l := { l with listeners := _ }) h

theorem head?_ready_ring {id' : Nat} (h : l.ready.head? = some id') : l.ring.ready.head? = some id' := by
  unfold ring
  split
  · exact h
  · exact head?_ready_signal (l := { l with listeners := _ }) h

theorem mem_listeners_ring {id' : Nat} (h : id' ∈ l.ring.listeners) : id' ∈ l.listeners := by
  unfold ring at h
  split at h
  · exact h
  · rename_i id rest hlisteners
    rw [listeners_signal] at h
    have hin : id' ∈ rest := h
    simp [hlisteners, hin]

/-! ### The lock -/

theorem workers_release (l : Link σ) : l.release.workers = l.workers := by
  unfold release
  dsimp only
  split
  · exact workers_wake ..
  · rfl

theorem listeners_release (l : Link σ) : l.release.listeners = l.listeners := by
  unfold release
  dsimp only
  split
  · exact listeners_wake ..
  · rfl

theorem head?_ready_release {id' : Nat} (h : l.ready.head? = some id') :
    l.release.ready.head? = some id' := by
  unfold release
  dsimp only
  split
  · exact head?_ready_wake (l := { l with lock := l.lock.release }) h _
  · exact h

/-- **Passing the lock on keeps the order**: who gets it is to run. -/
theorem InOrderBut.release (h : l.InOrderBut away) : l.release.InOrderBut away := by
  have hready : l.release.ready = l.outbox.readyAfterRelease := congrArg Outbox.ready (outbox_release l)
  have hroster := roster_release l
  have hlock : l.release.lock = l.lock.release := congrArg Roster.lock hroster
  have hnow : l.release.now = l.now := congrArg Roster.now hroster
  refine h.mono l.workers_release l.listeners_release ?_
  intro id w _ _ hgo hcan
  rw [hready]
  unfold CanGo at hgo hcan
  cases hstage : w.stage with
  | queueing job =>
    rw [hstage, hlock] at hcan
    rw [Outbox.readyAfterRelease_of_worker (o := l.outbox) hcan]
    exact Outbox.mem_rouse.mpr (Or.inr rfl)
  | seeking | idle deadline | writing job | calling job ends failure =>
    rw [hstage] at hgo hcan
    apply Outbox.mem_readyAfterRelease_of_mem
    apply hgo
    exact hnow ▸ hcan

/-- Asking for the lock gives it to nobody else. -/
theorem InOrderBut.request (h : l.InOrderBut away) {p : Party}
    (hp : ∀ id, some id ≠ away → p ≠ .worker id) :
    ({ l with lock := l.lock.request p } : Link σ).InOrderBut away := by
  refine h.mono rfl rfl ?_
  intro id w haway _ hgo hcan
  unfold CanGo at hgo hcan
  cases hstage : w.stage with
  | queueing job =>
    rw [hstage] at hgo hcan
    apply hgo
    rcases WriteLock.holder_request hcan with hholder | ⟨-, heq⟩
    · exact hholder
    · exact absurd heq.symm (hp id haway)
  | seeking | idle deadline | writing job | calling job ends failure =>
    rw [hstage] at hgo hcan
    exact hgo hcan

/-! ### In the middle of a step -/

/-- **The worker is in the middle of its step.** All others are in place; it stands to the bell as the signal
    says, and it is the first in line. -/
structure Midway (l : Link σ) (id : Nat) (s : Signal) : Prop where
  others : l.InOrderBut (some id)
  listens : id ∈ l.listeners ↔ s = .listening
  turn : l.ready.head? = some id

theorem InOrder.midway (h : l.InOrder) (hturn : l.ready.head? = some id) {w : Worker}
    (hw : l.workers.get? id = some w) : l.Midway id w.signal where
  others := ⟨fun _ => h.placed nofun, fun hin _ => h.known hin nofun, h.nodup⟩
  listens := (h.placed nofun hw).listens
  turn := hturn

namespace Midway

theorem ne_of_away {id' : Nat} (haway : some id' ≠ some id) : id' ≠ id :=
  fun heq => haway (congrArg some heq)

/-- Nothing has changed that matters for order. -/
theorem of_eq (h : l.Midway id s) (hworkers : l'.workers = l.workers)
    (hlisteners : l'.listeners = l.listeners) (hready : l'.ready = l.ready) (hlock : l'.lock = l.lock)
    (hnow : l'.now = l.now) : l'.Midway id s where
  others := h.others.of_ready hworkers hlisteners (congrArg WriteLock.holder hlock) hnow fun _ hid => by
    rwa [hready]
  listens := hlisteners ▸ h.listens
  turn := hready ▸ h.turn

/-- It begins to listen, or uses up a ring that was kept. -/
theorem listen (h : l.Midway id .off) {l' : Link σ} (hlisten : l.listen id = (l', s)) : l'.Midway id s := by
  have hnot : id ∉ l.listeners := fun hin => nomatch h.listens.mp hin
  unfold Link.listen at hlisten
  split at hlisten
  · cases hlisten
    refine ⟨h.others.of_ready rfl rfl rfl rfl fun _ hid => hid, ?_, h.turn⟩
    exact ⟨fun hin => absurd hin hnot, nofun⟩
  · cases hlisten
    refine ⟨⟨?_, ?_, ?_⟩, ?_, h.turn⟩
    · intro id' w haway hw
      have hplaced := h.others.placed haway hw
      refine ⟨?_, hplaced.seeks, hplaced.inLine⟩
      rw [← hplaced.listens]
      simp [ne_of_away haway]
    · intro id' hin haway
      have hin' : id' ∈ l.listeners := by simpa [ne_of_away haway] using hin
      exact h.others.known hin' haway
    · show (l.listeners ++ [id]).Nodup
      refine List.nodup_append.mpr ⟨h.others.nodup, by simp, ?_⟩
      intro id' hin id'' hin' heq
      exact hnot (List.mem_singleton.mp hin' ▸ heq ▸ hin)
    · simp

/-- It does not listen any more. -/
theorem erase (h : l.Midway id s) : ({ l with listeners := l.listeners.erase id } : Link σ).Midway id .off := by
  have hmem : ∀ {id'}, id' ≠ id → (id' ∈ l.listeners.erase id ↔ id' ∈ l.listeners) :=
    fun hne => List.mem_erase_of_ne hne
  refine ⟨⟨?_, ?_, h.others.nodup.erase id⟩, ?_, h.turn⟩
  · intro id' w haway hw
    have hplaced := h.others.placed haway hw
    exact ⟨(hmem (ne_of_away haway)).trans hplaced.listens, hplaced.seeks, hplaced.inLine⟩
  · intro id' hin haway
    exact h.others.known ((hmem (ne_of_away haway)).mp hin) haway
  · exact ⟨fun hin => absurd hin h.others.nodup.not_mem_erase, nofun⟩

/-- It hangs up, and a ring that it has not noticed goes to another worker. -/
theorem hangUp (h : l.Midway id s) : (l.hangUp id s).Midway id .off := by
  cases s with
  | listening => exact h.erase
  | rung =>
    have hnot : id ∉ l.listeners := fun hin => nomatch h.listens.mp hin
    refine ⟨h.others.ring ?_, ⟨fun hin => absurd (mem_listeners_ring hin) hnot, nofun⟩, head?_ready_ring h.turn⟩
    rintro id' hin heq
    exact hnot (Option.some.inj heq ▸ hin)
  | off | kept | called =>
    refine ⟨h.others, ?_, h.turn⟩
    exact h.listens.trans (by simp)

/-- It passes the lock on. -/
theorem release (h : l.Midway id s) : l.release.Midway id s where
  others := h.others.release
  listens := by
    rw [listeners_release]
    exact h.listens
  turn := head?_ready_release h.turn

/-! How a step ends. -/

/-- It comes to a stage and goes on. -/
theorem setWorker (h : l.Midway id s) {stage : Stage} (hstage : stage = .seeking → s = .off) :
    (l.setWorker id { signal := s, stage }).InOrder where
  placed := by
    intro id' w' _ hw'
    have hget : (l.workers.insert id { signal := s, stage }).get? id' = some w' := hw'
    rw [Table.get?_insert] at hget
    by_cases hid : id' = id
    · subst hid
      rw [if_pos rfl] at hget
      cases hget
      exact ⟨h.listens, hstage, fun _ => List.mem_of_mem_head? h.turn⟩
    · rw [if_neg hid] at hget
      have hother := h.others.placed (fun heq => hid (Option.some.inj heq)) hget
      exact ⟨hother.listens, hother.seeks, hother.inLine⟩
  known := by
    intro id' hin _
    show ∃ w, (l.workers.insert id { signal := s, stage }).get? id' = some w
    rw [Table.get?_insert]
    by_cases hid : id' = id
    · exact ⟨_, if_pos hid⟩
    · rw [if_neg hid]
      exact h.others.known hin fun heq => hid (Option.some.inj heq)
  nodup := h.others.nodup

/-- Those behind the first in line stay in line when it leaves the line. -/
theorem mem_tail (h : l.Midway id s) {id' : Nat} (hne : id' ≠ id) (hin : id' ∈ l.ready) :
    id' ∈ l.ready.tail := by
  obtain ⟨rest, hready⟩ := List.head?_eq_some_iff.mp h.turn
  rw [hready] at hin ⊢
  exact (List.mem_cons.mp hin).resolve_left hne

/-- It comes to a stage at which it has to wait. -/
theorem park (h : l.Midway id s) {stage : Stage} (hstage : stage ≠ .seeking)
    (hwait : ¬ l.CanGo id { signal := s, stage }) :
    (l.setWorker id { signal := s, stage }).suspend.InOrder := by
  have hset : (l.setWorker id { signal := s, stage }).InOrder := h.setWorker fun heq => absurd heq hstage
  refine hset.mono rfl rfl ?_
  intro id' w' _ hw' hgo hcan
  by_cases hid : id' = id
  · subst hid
    have hget : (l.workers.insert id' { signal := s, stage }).get? id' = some w' := hw'
    rw [Table.get?_insert, if_pos rfl] at hget
    cases hget
    exact absurd hcan hwait
  · exact h.mem_tail hid (hgo hcan)

/-- It ends. -/
theorem leave (h : l.Midway id s) : (l.leave id).InOrder where
  placed := by
    intro id' w' _ hw'
    have hget : (l.workers.erase id).get? id' = some w' := hw'
    rw [Table.get?_erase] at hget
    by_cases hid : id' = id
    · rw [if_pos hid] at hget
      cases hget
    · rw [if_neg hid] at hget
      have hother := h.others.placed (fun heq => hid (Option.some.inj heq)) hget
      exact ⟨(List.mem_erase_of_ne hid).trans hother.listens, hother.seeks,
        fun hcan => h.mem_tail hid (hother.inLine hcan)⟩
  known := by
    intro id' hin _
    have hne : id' ≠ id := by
      rintro rfl
      exact h.others.nodup.not_mem_erase hin
    obtain ⟨w, hw⟩ := h.others.known (List.mem_of_mem_erase hin) fun heq => hne (Option.some.inj heq)
    refine ⟨w, ?_⟩
    show (l.workers.erase id).get? id' = some w
    rwa [Table.get?_erase, if_neg hne]
  nodup := h.others.nodup.erase id

/-- It turns to the next message. -/
theorem moveOn (h : l.Midway id s) : (l.moveOn id s).InOrder :=
  h.hangUp.setWorker fun _ => rfl

end Midway

/-! ## Steps -/

theorem Midway.finish (h : l.Midway id s) (message : Submission) (fault : Option Fault) :
    (l.finish id s message fault).InOrder := by
  have hreported : (l.release.report message fault).Midway id s := by
    cases fault <;> exact h.release.of_eq rfl rfl rfl rfl rfl
  exact hreported.moveOn

theorem Midway.waitForBell (h : l.Midway id s) : (l.waitForBell env id s).InOrder := by
  have hcounted : ({ l with idleCount := l.idleCount + 1 } : Link σ).Midway id s :=
    h.of_eq rfl rfl rfl rfl rfl
  unfold Link.waitForBell
  split
  · exact h.leave
  · dsimp only
    split
    · rename_i hlistening
      exact hcounted.park nofun fun hgo => hgo hlistening
    · exact hcounted.setWorker nofun

theorem Midway.resume (h : l.Midway id s) : (l.resume env id s).InOrder := by
  have hcounted : ({ l with idleCount := l.idleCount - 1 } : Link σ).Midway id s :=
    h.of_eq rfl rfl rfl rfl rfl
  unfold Link.resume
  dsimp only
  split
  · exact hcounted.leave
  · exact hcounted.erase.setWorker fun _ => rfl

/-- A worker that takes a message on does not have the lock yet. -/
theorem Midway.takeOn (h : l.Midway id s) (hholder : l.lock.holder ≠ some (.worker id))
    (message : Submission) : (l.takeOn env id s message).InOrder := by
  have hprepare : (l.record (.taken message)).prepare env message = _ := prepare_eq _ message
  unfold Link.takeOn
  rw [hprepare]
  generalize hl' : ({ l.record (.taken message) with
    lastMessage := (l.record (.taken message)).outbox.idAfter message } : Link σ) = l'
  have hprepared : l'.Midway id s := hl' ▸ h.of_eq rfl rfl rfl rfl rfl
  have hlock : l'.lock = l.lock := hl' ▸ rfl
  cases (l.record (.taken message)).outbox.prepared env message with
  | error fault =>
    have hreported : (l'.report message (some fault)).Midway id s := hprepared.of_eq rfl rfl rfl rfl rfl
    exact hreported.moveOn
  | ok job =>
    have hrequested : ({ l' with lock := l'.lock.request (.worker id) } : Link σ).Midway id s := by
      refine ⟨hprepared.others.request ?_, hprepared.listens, hprepared.turn⟩
      intro id' haway heq
      exact haway (congrArg some (Party.worker.inj heq).symm)
    dsimp only
    split
    · exact hrequested.setWorker nofun
    · rename_i hbusy
      refine hrequested.park nofun ?_
      intro hgo
      rcases WriteLock.holder_request hgo with hmine | ⟨hfree, -⟩
      · exact hholder (hlock ▸ hmine)
      · exact hbusy hfree

theorem Midway.seek (h : l.Midway id .off) (hholder : l.lock.holder ≠ some (.worker id)) :
    (l.seek env id).InOrder := by
  obtain ⟨keptRing, listeners, signal, hlisten⟩ := l.exists_listen id
  have hlistened := h.listen hlisten
  unfold Link.seek
  rw [hlisten]
  dsimp only
  split
  · exact hlistened.leave
  · split
    · exact hlistened.waitForBell
    · rename_i message queue hqueue
      have htaken : ({ l with keptRing, listeners, queue } : Link σ).Midway id signal :=
        hlistened.of_eq rfl rfl rfl rfl rfl
      exact htaken.takeOn hholder message

theorem Midway.afterCall (h : l.Midway id s) (job : Job) (failure : Option (List String)) :
    (l.afterCall id s job failure).InOrder := by
  unfold Link.afterCall
  cases failure with
  | none => exact h.setWorker nofun
  | some causes => exact h.finish job.submission _

theorem Midway.writeNext (h : l.Midway id s) (job : Job) : (l.writeNext env id s job).InOrder := by
  unfold Link.writeNext
  split
  · exact h.finish job.submission none
  · rename_i f left hleft
    have hhanded : (l.handOver env (.message job.submission.number job.message) f).1.Midway id s :=
      h.of_eq rfl rfl rfl rfl rfl
    dsimp only
    split
    · exact hhanded.afterCall _ _
    · rename_i hdelay
      refine hhanded.park nofun ?_
      intro hgo
      exact absurd (Nat.lt_add_of_pos_right (Nat.pos_of_ne_zero hdelay)) (Nat.not_lt.mpr hgo)

/-- **A step of a worker keeps the order.** -/
theorem work_inOrder (hl : l.outbox.Locked) (h : l.InOrder) : (l.work env).InOrder := by
  unfold work
  split
  · exact h
  · rename_i id rest hready
    have hturn : l.ready.head? = some id := by simp [hready]
    split
    · rename_i hnone
      -- who is in line but not a worker leaves the line
      refine h.mono rfl rfl ?_
      intro id' w _ hw hgo hcan
      have hne : id' ≠ id := by
        rintro rfl
        cases hnone.symm.trans hw
      have hin := hgo hcan
      rw [hready] at hin
      show id' ∈ l.ready.tail
      rw [hready]
      exact (List.mem_cons.mp hin).resolve_left hne
    · rename_i w hw
      have hmidway := h.midway hturn hw
      have hstage := stageOf_eq hw
      split
      · rename_i hseeking
        have hgrip : l.outbox.grip id = none := by
          rw [grip_outbox hstage, hseeking]
          rfl
        have hoff := (h.placed nofun hw).seeks hseeking
        exact (hoff ▸ hmidway).seek (hl.holder_ne hgrip)
      · exact hmidway.resume
      · exact hmidway.setWorker nofun
      · exact hmidway.writeNext _
      · exact hmidway.afterCall _ _

/-! ### The clock -/

theorem wakeDue_frame (l : Link σ) : l.wakeDue.workers = l.workers ∧ l.wakeDue.listeners = l.listeners := by
  unfold wakeDue
  generalize l.workers.entries = entries
  induction entries generalizing l with
  | nil => exact ⟨rfl, rfl⟩
  | cons e es ih =>
    obtain ⟨hworkers, hlisteners⟩ := ih (if e.2.isDue l.now then l.wake e.1 else l)
    rw [List.foldl_cons, hworkers, hlisteners]
    split
    · exact ⟨workers_wake .., listeners_wake ..⟩
    · exact ⟨rfl, rfl⟩

/-- Those whose time has come are to run, and so are those that were to run anyway. -/
theorem mem_ready_wakeDue (h : id ∈ l.ready ∨ ∃ w, l.workers.get? id = some w ∧ w.isDue l.now = true) :
    id ∈ l.wakeDue.ready := by
  replace h : id ∈ l.ready ∨ ∃ w, (id, w) ∈ l.workers.entries ∧ w.isDue l.now = true := by
    apply h.imp_right
    rintro ⟨w, hw, hdue⟩
    exact ⟨w, Table.mem_of_get? hw, hdue⟩
  unfold wakeDue
  generalize l.workers.entries = entries at h
  induction entries generalizing l with
  | nil =>
    rcases h with hin | ⟨w, hw, -⟩
    · exact hin
    · cases hw
  | cons e es ih =>
    rw [List.foldl_cons]
    apply ih
    have hnow : (if e.2.isDue l.now then l.wake e.1 else l).now = l.now := by
      split
      · exact now_wake ..
      · rfl
    rw [hnow]
    rcases h with hin | ⟨w, hw, hdue⟩
    · left
      split
      · exact mem_ready_wake.mpr (Or.inl hin)
      · exact hin
    · rcases List.mem_cons.mp hw with rfl | hw
      · left
        rw [if_pos hdue]
        exact mem_ready_wake.mpr (Or.inr rfl)
      · exact Or.inr ⟨w, hw, hdue⟩

/-- **Time keeps the order**: those whose call is over are to run. -/
theorem InOrder.pass (h : l.InOrder) (ms : Nat) : (l.pass ms).InOrder := by
  obtain ⟨hworkers, hlisteners⟩ := wakeDue_frame { l with now := l.now + ms }
  have hroster := roster_pass l ms
  refine h.mono hworkers hlisteners ?_
  intro id w _ hw hgo hcan
  have hlock : (l.pass ms).lock = l.lock := congrArg Roster.lock hroster
  have hnow : (l.pass ms).now = l.now + ms := congrArg Roster.now hroster
  apply mem_ready_wakeDue (l := { l with now := l.now + ms })
  unfold CanGo at hgo hcan
  cases hstage : w.stage with
  | calling job ends failure =>
    rw [hstage, hnow] at hcan
    refine Or.inr ⟨w, hw, ?_⟩
    simpa [Worker.isDue, Worker.deadline?, hstage] using hcan
  | seeking | idle deadline | queueing job | writing job =>
    rw [hstage] at hgo hcan
    exact Or.inl (hgo (hlock ▸ hcan))

/-! ### The caller -/

/-- A message that waits is nobody's turn. -/
theorem InOrder.accept (h : l.InOrder) (x : Outbound) : (l.accept x).InOrder :=
  h.of_ready rfl rfl rfl rfl fun _ hid => hid

/-- A new worker is to run. -/
theorem InOrder.startWorker (h : l.InOrder) (hl : l.outbox.Locked) : l.startWorker.InOrder := by
  have hfree := get?_started hl
  have hworkers : l.startWorker.workers = l.workers.insert l.started {} := workers_wake ..
  have hlisteners : l.startWorker.listeners = l.listeners := listeners_wake ..
  have hroster := roster_startWorker l
  have hlock : l.startWorker.lock = l.lock := congrArg Roster.lock hroster
  have hnow : l.startWorker.now = l.now := congrArg Roster.now hroster
  have hready : ∀ {id}, id ∈ l.startWorker.ready ↔ id ∈ l.ready ∨ id = l.started := mem_ready_wake
  constructor
  · intro id w _ hw
    rw [hworkers, Table.get?_insert] at hw
    by_cases hid : id = l.started
    · rw [if_pos hid] at hw
      cases hw
      refine ⟨?_, fun _ => rfl, fun _ => hready.mpr (Or.inr hid)⟩
      refine ⟨?_, nofun⟩
      intro hin
      rw [hlisteners] at hin
      obtain ⟨w, hw⟩ := h.known hin nofun
      cases (hid ▸ hfree).symm.trans hw
    · rw [if_neg hid] at hw
      have hplaced := h.placed nofun hw
      refine ⟨hlisteners ▸ hplaced.listens, hplaced.seeks, ?_⟩
      intro hcan
      rw [canGo_congr (congrArg WriteLock.holder hlock) hnow] at hcan
      exact hready.mpr (Or.inl (hplaced.inLine hcan))
  · intro id hin _
    rw [hlisteners] at hin
    rw [hworkers, Table.get?_insert]
    by_cases hid : id = l.started
    · exact ⟨_, if_pos hid⟩
    · rw [if_neg hid]
      exact h.known hin nofun
  · rw [hlisteners]
    exact h.nodup

/-- Signals do not look at who listens. -/
theorem signal_setListeners (l : Link σ) (listeners : List Nat) (id : Nat) (s : Signal) :
    ({ l with listeners } : Link σ).signal id s = { l.signal id s with listeners } := by
  unfold signal wake
  dsimp only
  cases l.workers.get? id with
  | none => rfl
  | some w =>
    dsimp only
    cases w.stage with
    | idle deadline => by_cases hid : id ∈ l.ready <;> simp [setWorker, hid]
    | seeking | queueing job | writing job | calling job ends failure => rfl

/-- **Calling all listeners keeps the order.** -/
theorem InOrder.ringAll (h : l.InOrder) : l.ringAll.InOrder := by
  have hfold : ∀ (ids : List Nat) (l : Link σ), ({ l with listeners := ids } : Link σ).InOrder →
      (ids.foldl (fun (l : Link σ) id => l.signal id .called) { l with listeners := [] }).InOrder := by
    intro ids
    induction ids with
    | nil => exact fun l h => h
    | cons id ids ih =>
      intro l h
      have hsignal := h.signal (s := .called) rfl nofun nofun
      rw [List.foldl_cons, signal_setListeners]
      apply ih
      rw [← signal_setListeners]
      exact hsignal
  exact hfold l.listeners l h

theorem InOrder.shutDown (h : l.InOrder) : l.shutDown.InOrder := by
  have hdrop : ∀ (queue : List Submission) (l : Link σ), l.InOrder →
      (queue.foldl (fun l s => l.record (.dropped s)) l).InOrder := by
    intro queue
    induction queue with
    | nil => exact fun l h => h
    | cons s queue ih =>
      intro l h
      exact ih _ (h.of_ready rfl rfl rfl rfl fun _ hid => hid)
  have hcleared : ({ l.queue.foldl (fun l s => l.record (.dropped s)) l with
      isShutDown := true, queue := [] } : Link σ).InOrder :=
    (hdrop l.queue l h).of_ready rfl rfl rfl rfl fun _ hid => hid
  exact hcleared.ringAll

/-- Whoever brings in a message keeps workers in order. -/
theorem InOrder.bringIn (env : Environment σ) (h : l.InOrder) (hl : l.outbox.Locked) (x : Outbound)
    (hasExecutor : Bool) :
    (l.bringIn env x hasExecutor).1.InOrder := by
  have haccept := h.accept x
  rcases bringIn_cases env l x hasExecutor with hring | ⟨-, hleft | hstart⟩
  · rw [hring]
    exact haccept.ring fun _ _ => nofun
  · rw [hleft]
    exact haccept
  · rw [hstart]
    exact (haccept.startWorker (l := l.accept x) (hl.accept x)).ring fun _ _ => nofun

/-- **Whatever happens to a link, its workers stay in order.** -/
theorem Step.inOrder {log : List Outbound} (step : Step env l log l') (hl : l.outbox.Locked)
    (h : l.InOrder) : l'.InOrder := by
  cases step with
  | work => exact work_inOrder hl h
  | pass ms => exact h.pass ms
  | request => exact h.request fun id _ => nofun
  | release holder => exact h.release
  | shutDown => exact h.shutDown
  | control holder type | sessions sessions | tell other =>
    exact h.of_ready rfl rfl rfl rfl fun _ hid => hid
  | @submit _ x accepted =>
    have horder := h.bringIn env hl x true
    rwa [(bringIn_of_submit env accepted).2] at horder

end Link

end HeadLink
