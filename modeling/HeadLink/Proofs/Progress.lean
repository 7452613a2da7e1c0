import HeadLink.Link.Quiet
import HeadLink.Proofs.Attendance

/-!
# Work gets done

Every call of the transport returns. When one does, its worker goes on, and there is one call less to wait for. A
turn of a worker never adds to the calls that are yet to return (`Roster.load`), and it lowers their number if the
worker's call is over. So a link that is left alone comes to rest, with nothing in its queue and nothing in the
hands of its workers, if nobody outside keeps the lock and the link is not shut down before.

In the same way a caller that waits for the lock gets it: those ahead of it make only so many calls
(`Roster.ahead`).

## Contents
- **Calls.** `Roster.callsOf`, and what a turn does to the calls of its worker (`Roster.Turn.calls`).
- **Load.** `Roster.load`, which no turn raises.
- **The way to the lock.** `Roster.ahead`, which no turn raises either.
- **Time.** `Link.Onward`: what holds of a link that was left alone for a while.
- **Rest.** `Link.Tidy.exists_free`: there comes a time when nobody has the lock. `Link.Tidy.exists_done`: there comes
  one when nothing is left to do.
- **The lock.** `Link.Tidy.acquire`: a caller that asks for the lock gets it. It gives the lock back, so that
  between the actions of a run no caller has it (`Endpoint.caller_not_mem_parties`).
-/

namespace HeadLink

variable {σ : Type} {env : Environment σ}

/-! ## Calls -/

namespace Roster

variable {r r' : Roster} {id : Nat} {stage : Stage}

/-- How many calls a worker waits for yet with the message in its hands, at most. -/
def callsOf (r : Roster) (id : Nat) : Nat := ((r.stages.get? id).map Link.callsLeft).getD 0

theorem callsOf_eq (hstage : r.stages.get? id = some stage) : r.callsOf id = Link.callsLeft stage := by
  simp [callsOf, hstage]

@[simp] theorem get?_place (r : Roster) (id : Nat) (stage : Stage) (id' : Nat) :
    (r.place id stage).stages.get? id' = if id' = id then some stage else r.stages.get? id' :=
  Table.get?_insert ..

@[simp] theorem get?_dismiss (r : Roster) (id id' : Nat) :
    (r.dismiss id).stages.get? id' = if id' = id then none else r.stages.get? id' :=
  Table.get?_erase ..

theorem callsOf_place (r : Roster) (id : Nat) (stage : Stage) :
    (r.place id stage).callsOf id = Link.callsLeft stage := by
  simp [callsOf]

theorem callsOf_dismiss (r : Roster) (id : Nat) : (r.dismiss id).callsOf id = 0 := by
  simp [callsOf]

/-- Only the worker that runs comes to another stage. -/
theorem Turn.get?_of_ne (turn : Turn env id r r') {id' : Nat} (hne : id' ≠ id) :
    r'.stages.get? id' = r.stages.get? id' := by
  cases turn <;> simp [hne]

/-- The calls of all workers change as those of the worker that runs. -/
theorem Turn.total (turn : Turn env id r r') : r'.stages.total Link.callsLeft + r.callsOf id
    = r.stages.total Link.callsLeft + r'.callsOf id := by
  have hplace : ∀ {stage : Stage} {r' : Roster} (stage' : Stage), r.stages.get? id = some stage →
      r'.stages = r.stages → (r'.place id stage').stages.total Link.callsLeft + r.callsOf id
        = r.stages.total Link.callsLeft + (r'.place id stage').callsOf id := by
    intro stage r' stage' hstage hstages
    rw [callsOf_eq hstage, callsOf_place, ← Table.total_insert hstage, ← hstages]
    rfl
  have hdismiss : ∀ {stage : Stage} {r' : Roster}, r.stages.get? id = some stage → r'.stages = r.stages →
      (r'.dismiss id).stages.total Link.callsLeft + r.callsOf id
        = r.stages.total Link.callsLeft + (r'.dismiss id).callsOf id := by
    intro stage r' hstage hstages
    rw [callsOf_eq hstage, callsOf_dismiss, ← Table.total_erase hstage, ← hstages]
    rfl
  cases turn with
  | leave hstage | expire hstage => exact hdismiss hstage rfl
  | refuse => rfl
  | rest hstage | rise hstage | takeOn hstage | grant hstage | call hstage | hand hstage | goOn hstage
  | finish hstage => exact hplace _ hstage rfl

/-- **What a turn does to the queue, to the lock, and to the calls of its worker.** The worker has no more of them
    than before; or it is through with its message and gives the lock back; or it takes a message and asks for
    the lock. -/
theorem Turn.calls (turn : Turn env id r r') :
    r'.lock = r.lock ∧ r'.callsOf id ≤ r.callsOf id ∧ r'.queue <:+ r.queue
      ∨ r.lock.holder = some (.worker id) ∧ r'.lock = r.lock.release ∧ r'.callsOf id = 0
        ∧ r'.queue = r.queue
      ∨ ∃ s, r.stages.get? id = some .seeking ∧ r'.lock = r.lock.request (.worker id)
        ∧ r'.callsOf id ≤ s.payload.length + 2 ∧ r.queue = s :: r'.queue := by
  cases turn with
  | leave | expire =>
    rw [callsOf_dismiss]
    exact Or.inl ⟨rfl, Nat.zero_le _, List.suffix_rfl⟩
  | refuse hstage hopen hqueue => exact Or.inl ⟨rfl, Nat.le_refl _, hqueue ▸ List.suffix_cons ..⟩
  | @takeOn s queue job hstage hopen hqueue hlength =>
    refine Or.inr (Or.inr ⟨s, hstage, rfl, ?_, hqueue⟩)
    rw [callsOf_place]
    split <;> exact hlength
  | rest | rise =>
    rw [callsOf_place]
    exact Or.inl ⟨rfl, Nat.zero_le _, List.suffix_rfl⟩
  | grant hstage | call hstage hleft | hand hstage hleft | goOn hstage =>
    rw [callsOf_place, callsOf_eq hstage]
    refine Or.inl ⟨rfl, ?_, List.suffix_rfl⟩
    simp [Link.callsLeft, *]
  | finish hstage hgrip hholder => exact Or.inr (Or.inl ⟨hholder, rfl, callsOf_place .., rfl⟩)

/-- A call is under way. -/
def Calls (r : Roster) (id : Nat) : Prop :=
  ∃ job ends failure, r.stages.get? id = some (.calling job ends failure)

/-- **A worker whose call is over has one call less to wait for.** -/
theorem Turn.calls_lt (turn : Turn env id r r') (hcalls : r.Calls id) :
    r'.queue = r.queue ∧ r'.callsOf id < r.callsOf id := by
  obtain ⟨job, ends, failure, hcalling⟩ := hcalls
  have hbefore : r.callsOf id = job.left.length + 1 := callsOf_eq hcalling
  cases turn with
  | goOn hstage =>
    cases hcalling.symm.trans hstage
    rw [callsOf_place, hbefore]
    exact ⟨rfl, Nat.lt_succ_self _⟩
  | finish hstage =>
    rw [callsOf_place, hbefore]
    exact ⟨rfl, Nat.succ_pos _⟩
  | leave hstage | rest hstage | expire hstage | rise hstage | refuse hstage | takeOn hstage | grant hstage
  | call hstage | hand hstage => cases hcalling.symm.trans hstage

/-- All calls that were under way are under way still, and are over at the same time. -/
def CallsGoOn (r r' : Roster) : Prop :=
  ∀ id job ends failure, r.stages.get? id = some (.calling job ends failure) →
    r'.stages.get? id = some (.calling job ends failure)

/-- Unless the worker that runs was calling, all calls go on. -/
theorem Turn.callsGoOn (turn : Turn env id r r') (hnot : ¬ r.Calls id) : r.CallsGoOn r' := by
  intro id' job ends failure hcalling
  by_cases hid : id' = id
  · subst hid
    exact absurd ⟨job, ends, failure, hcalling⟩ hnot
  · rw [turn.get?_of_ne hid, hcalling]

/-! ## Load -/

/-- How many calls the messages that wait take, at most. -/
def callsWaiting : List Submission → Nat
  | [] => 0
  | s :: queue => s.payload.length + 2 + callsWaiting queue

theorem callsWaiting_le {queue queue' : List Submission} (h : queue' <:+ queue) :
    callsWaiting queue' ≤ callsWaiting queue := by
  obtain ⟨gone, rfl⟩ := h
  induction gone with
  | nil => exact Nat.le_refl _
  | cons s gone ih => exact ih.trans (Nat.le_add_left _ _)

/-- How many calls of the transport are yet to return, at most. -/
def load (r : Roster) : Nat := callsWaiting r.queue + r.stages.total Link.callsLeft

/-- **A turn adds nothing to the load.** -/
theorem Turn.load_le (turn : Turn env id r r') : r'.load ≤ r.load := by
  have htotal := turn.total
  unfold load
  rcases turn.calls with ⟨-, hcalls, hqueue⟩ | ⟨-, -, hcalls, hqueue⟩ | ⟨s, hstage, -, hcalls, hqueue⟩
  · have hwaiting := callsWaiting_le hqueue
    omega
  · rw [hqueue]
    omega
  · -- the message counted as much in the queue as it can count in the hands of the worker
    have hnone : r.callsOf id = 0 := callsOf_eq hstage
    have hwaiting : callsWaiting r.queue = s.payload.length + 2 + callsWaiting r'.queue := by
      rw [hqueue]
      rfl
    omega

/-- **The turn of a worker whose call is over lowers the load.** -/
theorem Turn.load_lt (turn : Turn env id r r') (hcalls : r.Calls id) : r'.load < r.load := by
  have htotal := turn.total
  obtain ⟨hqueue, hlt⟩ := turn.calls_lt hcalls
  unfold load
  rw [hqueue]
  omega

end Roster

/-! ## The way to the lock -/

/-- How many calls are over before the caller gets the lock, if each worker makes the given number of calls. -/
def aheadOf (calls : Nat → Nat) : List Party → Nat
  | .worker id :: parties => calls id + aheadOf calls parties
  | .caller :: _ | [] => 0

theorem aheadOf_mono {calls calls' : Nat → Nat} {parties : List Party}
    (h : ∀ id, .worker id ∈ parties → calls' id ≤ calls id) :
    aheadOf calls' parties ≤ aheadOf calls parties := by
  induction parties with
  | nil => exact Nat.le_refl 0
  | cons p parties ih =>
    cases p with
    | caller => exact Nat.le_refl 0
    | worker id =>
      have hfirst := h id List.mem_cons_self
      have hrest := ih fun id' hid' => h id' (List.mem_cons_of_mem _ hid')
      show calls' id + aheadOf calls' parties ≤ calls id + aheadOf calls parties
      omega

/-- Who comes after the caller does not count. -/
theorem aheadOf_append (calls : Nat → Nat) {parties : List Party} (h : .caller ∈ parties)
    (more : List Party) : aheadOf calls (parties ++ more) = aheadOf calls parties := by
  induction parties with
  | nil => cases h
  | cons p parties ih =>
    cases p with
    | caller => rfl
    | worker id =>
      have hin : .caller ∈ parties := by simpa using h
      exact congrArg (calls id + ·) (ih hin)

theorem WriteLock.Sound.parties_request {k : WriteLock} (h : k.Sound) (p : Party) :
    (k.request p).parties = k.parties ++ [p] := by
  unfold WriteLock.request WriteLock.parties
  cases hholder : k.holder with
  | none => simp [h hholder]
  | some q => simp

namespace Roster

variable {r r' : Roster} {id : Nat} {stage : Stage}

/-- How many calls are over before the caller gets the lock, at most. -/
def ahead (r : Roster) : Nat := aheadOf r.callsOf r.lock.parties

/-- The calls of several parties change as those of the worker that runs, if it is among them. -/
theorem Turn.aheadOf_le (turn : Turn env id r r') {parties : List Party}
    (hown : .worker id ∈ parties → r'.callsOf id ≤ r.callsOf id) :
    aheadOf r'.callsOf parties ≤ aheadOf r.callsOf parties := by
  apply aheadOf_mono
  intro id' hin
  by_cases hid : id' = id
  · subst hid
    exact hown hin
  · unfold callsOf
    rw [turn.get?_of_ne hid]

/-- **A turn puts nothing ahead of a caller that waits.** -/
theorem Turn.ahead_le (turn : Turn env id r r') (hsound : r.lock.Sound) (hcaller : .caller ∈ r.lock.parties)
    (hfree : r.stages.get? id = some .seeking → .worker id ∉ r.lock.parties) : r'.ahead ≤ r.ahead := by
  unfold ahead
  rcases turn.calls with ⟨hlock, hcalls, -⟩ | ⟨hholder, hlock, hcalls, -⟩ | ⟨s, hstage, hlock, -⟩
  · rw [hlock]
    exact turn.aheadOf_le fun _ => hcalls
  · rw [hlock, WriteLock.parties_eq_cons hholder]
    refine (turn.aheadOf_le fun _ => ?_).trans (Nat.le_add_left _ _)
    omega
  · rw [hlock, hsound.parties_request, aheadOf_append _ hcaller]
    exact turn.aheadOf_le fun hin => absurd hin (hfree hstage)

/-- **The turn of a worker whose call is over brings the caller nearer to the lock.** -/
theorem Turn.ahead_lt (turn : Turn env id r r') (hcalls : r.Calls id)
    (hholder : r.lock.holder = some (.worker id)) : r'.ahead < r.ahead := by
  obtain ⟨-, hlt⟩ := turn.calls_lt hcalls
  have hrest : aheadOf r'.callsOf r.lock.release.parties ≤ aheadOf r.callsOf r.lock.release.parties :=
    turn.aheadOf_le fun _ => Nat.le_of_lt hlt
  unfold ahead
  rw [WriteLock.parties_eq_cons hholder]
  show _ < r.callsOf id + aheadOf r.callsOf r.lock.release.parties
  rcases turn.calls with ⟨hlock, -⟩ | ⟨-, hlock, -⟩ | ⟨s, hstage, -⟩
  · rw [hlock, WriteLock.parties_eq_cons hholder]
    show r'.callsOf id + aheadOf r'.callsOf r.lock.release.parties < _
    omega
  · rw [hlock]
    omega
  · obtain ⟨job, ends, failure, hcalling⟩ := hcalls
    cases hcalling.symm.trans hstage

end Roster

/-! ## Time -/

namespace Roster

variable {measure : Roster → Nat} {r r' r₁ r₂ r₃ : Roster} {id : Nat}

/-- There is less to do, or there is no more to do than before and all calls go on. -/
def Lighter (measure : Roster → Nat) (r r' : Roster) : Prop :=
  measure r' < measure r ∨ measure r' ≤ measure r ∧ r.CallsGoOn r'

theorem Lighter.refl (r : Roster) : Lighter measure r r :=
  Or.inr ⟨Nat.le_refl _, fun _ _ _ _ hcalling => hcalling⟩

theorem Lighter.trans (h₁ : Lighter measure r₁ r₂) (h₂ : Lighter measure r₂ r₃) :
    Lighter measure r₁ r₃ := by
  rcases h₁ with hlt | ⟨hle, hgoOn⟩
  · exact Or.inl (Nat.lt_of_le_of_lt (h₂.elim Nat.le_of_lt And.left) hlt)
  · rcases h₂ with hlt | ⟨hle', hgoOn'⟩
    · exact Or.inl (Nat.lt_of_lt_of_le hlt hle)
    · refine Or.inr ⟨hle'.trans hle, ?_⟩
      exact fun id job ends failure hcalling => hgoOn' _ _ _ _ (hgoOn id job ends failure hcalling)

theorem Turn.lighter_load (turn : Turn env id r r') : Lighter load r r' := by
  by_cases hcalls : r.Calls id
  · exact Or.inl (turn.load_lt hcalls)
  · exact Or.inr ⟨turn.load_le, turn.callsGoOn hcalls⟩

/-- Turns take no time and do not shut the link down. -/
theorem Turn.frame (turn : Turn env id r r') : r'.now = r.now ∧ r'.isShutDown = r.isShutDown := by
  cases turn <;> exact ⟨rfl, rfl⟩

/-- A caller that waits for the lock goes on waiting, or gets it. -/
theorem Turn.count_caller (turn : Turn env id r r') :
    r'.lock.parties.count .caller = r.lock.parties.count .caller := by
  rcases turn.calls with ⟨hlock, -⟩ | ⟨hholder, hlock, -⟩ | ⟨s, -, hlock, -⟩
  · rw [hlock]
  · rw [hlock, WriteLock.parties_eq_cons hholder]
    simp
  · rw [hlock, WriteLock.count_parties_request]
    simp

end Roster

namespace Link

variable {l l' l₀ : Link σ} {id : Nat}

/-- **The link was left alone for a while.** There is less to do, or the calls that were under way go on. -/
structure Onward (l₀ l : Link σ) : Prop where
  tidy : l.Tidy
  isShutDown : l.isShutDown = l₀.isShutDown
  caller : l.lock.parties.count .caller = l₀.lock.parties.count .caller
  load : l₀.roster.Lighter Roster.load l.roster
  ahead : .caller ∈ l₀.lock.parties → l₀.roster.Lighter Roster.ahead l.roster

theorem Onward.refl (h : l.Tidy) : l.Onward l := ⟨h, rfl, rfl, .refl _, fun _ => .refl _⟩

/-- What does not show on the roster brings nothing on. -/
theorem Onward.of_roster_eq (h : l'.Tidy) (hroster : l'.roster = l.roster) : l.Onward l' := by
  refine ⟨h, congrArg Roster.isShutDown hroster, ?_, hroster ▸ .refl _, fun _ => hroster ▸ .refl _⟩
  rw [show l'.lock = l.lock from congrArg Roster.lock hroster]

/-- A caller that waits for the lock goes on waiting, or has it. -/
theorem Onward.mem_caller (h : l₀.Onward l) (hcaller : .caller ∈ l₀.lock.parties) :
    .caller ∈ l.lock.parties := by
  rw [← List.count_pos_iff, h.caller]
  exact List.count_pos_iff.mpr hcaller

theorem Onward.trans (h : l₀.Onward l) (h' : l.Onward l') : l₀.Onward l' where
  tidy := h'.tidy
  isShutDown := h'.isShutDown.trans h.isShutDown
  caller := h'.caller.trans h.caller
  load := h.load.trans h'.load
  ahead hcaller := (h.ahead hcaller).trans (h'.ahead (h.mem_caller hcaller))

/-- A worker that looks for a message neither has the lock nor wants it. -/
theorem Tidy.not_mem_parties (h : l.Tidy) (hstage : l.stageOf id = some .seeking) :
    .worker id ∉ l.lock.parties := by
  have hcount : l.lock.parties.count (.worker id) = _ := h.locked.parties id
  rw [grip_outbox hstage] at hcount
  exact List.count_eq_zero.mp hcount

/-- A worker whose call is under way has the lock. -/
theorem Tidy.holder_of_calls (h : l.Tidy) (hcalls : l.roster.Calls id) :
    l.lock.holder = some (.worker id) := by
  obtain ⟨job, ends, failure, hcalling⟩ := hcalls
  rw [get?_stages_roster] at hcalling
  have hgrip := grip_outbox hcalling
  cases failure with
  | none => exact h.locked.holding hgrip nofun
  | some causes => exact h.locked.holding hgrip nofun

/-- **A step of a worker brings things on.** -/
theorem Tidy.onward_work (hworkers : 0 < env.settings.maxWorkers) (h : l.Tidy) : l.Onward (l.work env) := by
  have htidy := h.step hworkers .work
  rcases work_roster env h.locked with hsame | ⟨id, turn⟩
  · exact .of_roster_eq htidy hsame
  · refine ⟨htidy, turn.frame.2, turn.count_caller, turn.lighter_load, ?_⟩
    intro hcaller
    by_cases hcalls : l.roster.Calls id
    · exact Or.inl (turn.ahead_lt hcalls (h.holder_of_calls hcalls))
    · refine Or.inr ⟨turn.ahead_le h.lock hcaller ?_, turn.callsGoOn hcalls⟩
      intro hseeking
      exact h.not_mem_parties ((get?_stages_roster l id).symm.trans hseeking)

/-- Time changes nothing but the clock. -/
theorem Tidy.onward_pass (hworkers : 0 < env.settings.maxWorkers) (h : l.Tidy) (ms : Nat) :
    l.Onward (l.pass ms) := by
  have htidy : (l.pass ms).Tidy := h.step hworkers (.pass ms)
  have hroster := roster_pass l ms
  have hgoOn : l.roster.CallsGoOn (l.pass ms).roster := by
    rw [hroster]
    exact fun _ _ _ _ hcalling => hcalling
  refine ⟨htidy, congrArg Roster.isShutDown hroster, ?_, Or.inr ⟨?_, hgoOn⟩, fun _ => Or.inr ⟨?_, hgoOn⟩⟩
  · rw [show (l.pass ms).lock = l.lock from congrArg Roster.lock hroster]
  · rw [hroster]
    exact Nat.le_refl _
  · rw [hroster]
    exact Nat.le_refl _

theorem Tidy.onward_settle (hworkers : 0 < env.settings.maxWorkers) (h : l.Tidy) :
    l.Onward (l.settle env) := by
  fun_induction settle env l with
  | case1 l hready => exact .refl h
  | case2 l hready ih =>
    have hwork := h.onward_work hworkers
    exact hwork.trans (ih hwork.tidy)

theorem Tidy.onward_sleep (hworkers : 0 < env.settings.maxWorkers) (h : l.Tidy) (ms : Nat) :
    l.Onward (l.sleep env ms) := by
  fun_induction sleep env ms l with
  | case1 l => exact .refl h
  | case2 n l settled skipped ih =>
    have hsettle : l.Onward settled := h.onward_settle hworkers
    have hpass := hsettle.tidy.onward_pass hworkers (skipped + 1)
    exact (hsettle.trans hpass).trans (ih hpass.tidy)

/-! ### The clock -/

theorem Tidy.now_settle (hworkers : 0 < env.settings.maxWorkers) (h : l.Tidy) :
    (l.settle env).now = l.now := by
  fun_induction settle env l with
  | case1 l hready => rfl
  | case2 l hready ih =>
    rw [ih (h.step hworkers .work)]
    rcases work_roster env h.locked with hsame | ⟨id, turn⟩
    · exact congrArg Roster.now hsame
    · exact turn.frame.1

theorem Tidy.now_sleep (hworkers : 0 < env.settings.maxWorkers) (h : l.Tidy) (ms : Nat) :
    (l.sleep env ms).now = l.now + ms := by
  fun_induction sleep env ms l with
  | case1 l => rfl
  | case2 n l settled skipped ih =>
    have hsettle : l.Onward settled := h.onward_settle hworkers
    have hnow : settled.now = l.now := h.now_settle hworkers
    have hle : skipped ≤ n := settled.quiet_le n
    have hpass : (settled.pass (skipped + 1)).now = settled.now + (skipped + 1) :=
      congrArg Roster.now (roster_pass settled (skipped + 1))
    rw [ih (hsettle.tidy.onward_pass hworkers (skipped + 1)).tidy, hpass, hnow]
    omega

/-! ## Rest -/

/-- **Who has the lock while all wait, waits for the transport.** -/
theorem Tidy.calling_of_holder (h : l.Tidy) (hready : l.ready = [])
    (hholder : l.lock.holder = some (.worker id)) :
    ∃ job ends failure, l.stageOf id = some (.calling job ends failure) ∧ l.now < ends := by
  obtain ⟨g, hg⟩ := h.locked.exists_grip hholder
  obtain ⟨stage, hstage, hgrip⟩ := Option.bind_eq_some_iff.mp hg
  obtain ⟨w, hw, rfl⟩ := Option.map_eq_some_iff.mp hstage
  -- nobody is to run, so the worker has to wait for something
  have hwaits : ¬ l.CanGo id w := by
    intro hgo
    have hin := (h.order.placed nofun hw).inLine hgo
    rw [hready] at hin
    cases hin
  unfold CanGo at hwaits
  cases hat : w.stage with
  | seeking =>
    rw [hat] at hgrip
    cases hgrip
  | idle deadline =>
    rw [hat] at hgrip
    cases hgrip
  | queueing job =>
    rw [hat] at hwaits
    exact absurd hholder hwaits
  | writing job =>
    rw [hat] at hwaits
    exact absurd trivial hwaits
  | calling job ends failure =>
    rw [hat] at hwaits
    exact ⟨job, ends, failure, hstage.trans (congrArg some hat), Nat.lt_of_not_le hwaits⟩

/-- Whoever is calling while all wait waits for a moment to come. -/
theorem Tidy.now_lt (h : l.Tidy) (hready : l.ready = []) {job : Job} {ends : Nat}
    {failure : Option (List String)} (hcalling : l.stageOf id = some (.calling job ends failure)) :
    l.now < ends := by
  have hcalls : l.roster.Calls id := ⟨job, ends, failure, (get?_stages_roster l id).trans hcalling⟩
  obtain ⟨job', ends', failure', hcalling', hlt⟩ := h.calling_of_holder hready (h.holder_of_calls hcalls)
  cases hcalling.symm.trans hcalling'
  exact hlt

/-- **When a call is over, there is less to do** once the workers have run, and those that wait for the lock are
    nearer to it. -/
theorem Tidy.lighter_after_call (hworkers : 0 < env.settings.maxWorkers) (h : l.Tidy) (hready : l.ready = [])
    (hholder : l.lock.holder = some (.worker id)) :
    (((l.sleep env l.callRemaining).settle env).roster).load < l.roster.load
      ∧ (.caller ∈ l.lock.parties →
        (((l.sleep env l.callRemaining).settle env).roster).ahead < l.roster.ahead) := by
  obtain ⟨job, ends, failure, hcalling, hlt⟩ := h.calling_of_holder hready hholder
  have hremaining : l.callRemaining = ends - l.now := by
    unfold callRemaining
    rw [hholder]
    dsimp only
    rw [hcalling]
  have hsleep : l.Onward (l.sleep env l.callRemaining) := h.onward_sleep hworkers _
  have hsettle := hsleep.tidy.onward_settle hworkers
  have honward := hsleep.trans hsettle
  -- the call cannot go on, because its time has come and nobody is left to run
  have hover : ¬ l.roster.CallsGoOn ((l.sleep env l.callRemaining).settle env).roster := by
    intro hgoOn
    have hstill := hgoOn id job ends failure ((get?_stages_roster l id).trans hcalling)
    have hbefore := honward.tidy.now_lt (ready_settle env _) ((get?_stages_roster _ id).symm.trans hstill)
    rw [hsleep.tidy.now_settle hworkers, h.now_sleep hworkers, hremaining] at hbefore
    omega
  refine ⟨honward.load.resolve_right fun hle => hover hle.2, fun hcaller => ?_⟩
  exact (honward.ahead hcaller).resolve_right fun hle => hover hle.2

end Link

/-- Nothing waits, and no worker has a message in its hands. -/
def Roster.IsDone (r : Roster) : Prop :=
  r.queue = [] ∧ ∀ id stage, r.stages.get? id = some stage → stage.grip = none

namespace Link

variable {l l' : Link σ}

/-- While nobody has the lock, no worker has a message in its hands. -/
theorem Tidy.grip_eq_none (h : l.Tidy) (hfree : l.lock.holder = none) {id : Nat} {stage : Stage}
    (hstage : l.stageOf id = some stage) : stage.grip = none := by
  have hnobody : l.lock.parties = [] := by
    unfold WriteLock.parties
    rw [hfree, h.lock hfree]
    rfl
  -- who has a message in its hands has the lock or waits for it
  have hcount : l.lock.parties.count (.worker id) = _ := h.locked.parties id
  rw [hnobody, grip_outbox hstage] at hcount
  by_contra hsome
  rw [if_pos (Option.isSome_iff_ne_none.mpr hsome)] at hcount
  cases hcount

/-- While all wait and nobody has the lock, there is nothing left to do. -/
theorem Tidy.done_of_free (h : l.Tidy) (hready : l.ready = []) (hfree : l.lock.holder = none)
    (hopen : l.isShutDown = false) : l.roster.IsDone := by
  have hgrip : ∀ id stage, l.stageOf id = some stage → stage.grip = none :=
    fun id stage hstage => h.grip_eq_none hfree hstage
  refine ⟨?_, fun id stage hstage => hgrip id stage ((get?_stages_roster l id).symm.trans hstage)⟩
  by_contra hwaits
  obtain ⟨id, stage, hstage, hruns⟩ := h.attended hopen hwaits
  rw [hready] at hruns
  obtain ⟨w, hw, rfl⟩ := Option.map_eq_some_iff.mp hstage
  have hnone := hgrip id w.stage hstage
  -- the worker that is to look for the message would be in line
  cases hat : w.stage with
  | seeking =>
    have hgo : l.CanGo id w := by
      unfold CanGo
      rw [hat]
      trivial
    have hin := (h.order.placed nofun hw).inLine hgo
    rw [hready] at hin
    cases hin
  | idle deadline =>
    rw [hat] at hruns
    rcases hruns with hbusy | hin
    · cases hbusy
    · cases hin
  | queueing job | writing job =>
    rw [hat] at hnone
    cases hnone
  | calling job ends failure =>
    rw [hat] at hnone
    cases failure <;> cases hnone

/-! ### Waiting twice -/

theorem sleep_add (m n : Nat) (l : Link σ) : (l.sleep env m).sleep env n = l.sleep env (m + n) := by
  induction m generalizing l with
  | zero =>
    rw [Nat.zero_add, show l.sleep env 0 = l by rw [sleep]]
  | succ m ih => rw [sleep_succ, ih, Nat.succ_add, sleep_succ]

theorem sleep_settle {ms : Nat} (h : 0 < ms) (l : Link σ) : (l.settle env).sleep env ms = l.sleep env ms := by
  obtain ⟨n, rfl⟩ := Nat.exists_eq_succ_of_ne_zero (Nat.ne_of_gt h)
  rw [sleep_succ, sleep_succ, settle_of_ready env (ready_settle env l)]

/-- **There comes a time when all wait and nobody has the lock**, if nobody outside has it or wants it. The induction
    is on the load. -/
theorem Tidy.exists_free (hworkers : 0 < env.settings.maxWorkers) (h : l.Tidy)
    (hcaller : .caller ∉ l.lock.parties) : ∃ ms, ((l.sleep env ms).settle env).lock.holder = none := by
  induction hload : (l.settle env).roster.load using Nat.strong_induction_on generalizing l with
  | _ load ih =>
    subst hload
    have hsettle := h.onward_settle hworkers
    have hready := ready_settle env l
    cases hholder : (l.settle env).lock.holder with
    | none =>
      refine ⟨0, ?_⟩
      rwa [show l.sleep env 0 = l by rw [sleep]]
    | some p =>
      have hnone : (l.settle env).lock.parties.count .caller = 0 :=
        hsettle.caller.trans (List.count_eq_zero.mpr hcaller)
      cases p with
      | caller =>
        have hin : .caller ∈ (l.settle env).lock.parties := by
          rw [WriteLock.parties_eq_cons hholder]
          exact List.mem_cons_self
        exact absurd hin (List.count_eq_zero.mp hnone)
      | worker id =>
        -- after the call of the worker that has the lock, there is less to do
        obtain ⟨job, ends, failure, hcalling, hlt⟩ := hsettle.tidy.calling_of_holder hready hholder
        have hpos : 0 < (l.settle env).callRemaining := by
          unfold callRemaining
          rw [hholder]
          dsimp only
          rw [hcalling]
          exact Nat.sub_pos_of_lt hlt
        have hless := (hsettle.tidy.lighter_after_call hworkers hready hholder).1
        have hsleep : l.Onward (l.sleep env (l.settle env).callRemaining) := h.onward_sleep hworkers _
        rw [sleep_settle hpos] at hless
        obtain ⟨ms, hfree⟩ := ih _ hless hsleep.tidy
          (List.count_eq_zero.mp (hsleep.caller.trans (List.count_eq_zero.mpr hcaller))) rfl
        refine ⟨(l.settle env).callRemaining + ms, ?_⟩
        rwa [← sleep_add]

/-- After the workers have run, a millisecond passes without any of them. -/
theorem roster_sleep_succ (env : Environment σ) (ms : Nat) (l : Link σ) : (l.sleep env (ms + 1)).roster
    = { ((l.sleep env ms).settle env).roster with now := ((l.sleep env ms).settle env).now + 1 } := by
  have htick : l.sleep env (ms + 1) = ((l.sleep env ms).settle env).tick := by
    rw [← sleep_add, sleep_succ, sleep]
  rw [htick, tick, roster_pass]

/-- **A link that is left alone comes to rest.** -/
theorem Tidy.exists_done (hworkers : 0 < env.settings.maxWorkers) (h : l.Tidy)
    (hopen : l.isShutDown = false) (hcaller : .caller ∉ l.lock.parties) :
    ∃ ms, (l.sleep env ms).roster.IsDone := by
  obtain ⟨ms, hfree⟩ := h.exists_free hworkers hcaller
  have hsleep := h.onward_sleep hworkers ms
  have hsettle := hsleep.tidy.onward_settle hworkers
  refine ⟨ms + 1, ?_⟩
  rw [roster_sleep_succ]
  exact hsettle.tidy.done_of_free (ready_settle env _) hfree
    ((hsleep.trans hsettle).isShutDown.trans hopen)

end Link

/-! ## The lock -/

namespace Roster

/-- Workers with different names make no more calls than all workers together. -/
theorem aheadOf_le_total {parties : List Party} (hcount : ∀ id, parties.count (.worker id) ≤ 1) (r : Roster) :
    aheadOf r.callsOf parties ≤ r.stages.total Link.callsLeft := by
  induction parties generalizing r with
  | nil => exact Nat.zero_le _
  | cons p parties ih =>
    have hrest : ∀ id, parties.count (.worker id) ≤ 1 := fun id => List.count_le_count_cons.trans (hcount id)
    cases p with
    | caller => exact Nat.zero_le _
    | worker id =>
      show r.callsOf id + aheadOf r.callsOf parties ≤ _
      cases hstage : r.stages.get? id with
      | none =>
        have hnone : r.callsOf id = 0 := by simp [callsOf, hstage]
        rw [hnone, Nat.zero_add]
        exact ih hrest r
      | some stage =>
        -- the worker is not among the others, so they make their calls without it
        have hout : .worker id ∉ parties := by
          have hone := hcount id
          rw [List.count_cons_self] at hone
          exact List.count_eq_zero.mp (Nat.le_zero.mp (Nat.le_of_succ_le_succ hone))
        have hsame : aheadOf r.callsOf parties ≤ aheadOf (r.dismiss id).callsOf parties := by
          apply aheadOf_mono
          intro id' hin
          have hne : id' ≠ id := fun heq => hout (heq ▸ hin)
          simp [callsOf, hne]
        have hothers := hsame.trans (ih hrest (r.dismiss id))
        have htotal := Table.total_erase hstage Link.callsLeft
        rw [callsOf_eq hstage]
        show _ ≤ r.stages.total Link.callsLeft
        have hstages : (r.dismiss id).stages = r.stages.erase id := rfl
        rw [hstages] at hothers
        omega

end Roster

namespace Link

variable {l l' : Link σ} {log : List Outbound}

/-- The calls that come before that of a caller who waits are among all that are yet to return. -/
theorem Tidy.ahead_le_callsAhead (h : l.Tidy) : l.roster.ahead ≤ l.callsAhead := by
  have hcount : ∀ id, l.lock.parties.count (.worker id) ≤ 1 := by
    intro id
    have hparties : l.lock.parties.count (.worker id) = _ := h.locked.parties id
    rw [hparties]
    split <;> decide
  have hle := Roster.aheadOf_le_total hcount l.roster
  have htotal : l.roster.stages.total callsLeft = l.callsAhead := Table.total_mapValues ..
  exact htotal ▸ hle

/-- Whoever waits for the lock waits for a party that has it. -/
theorem Tidy.exists_holder (h : l.Tidy) {p : Party} (hp : p ∈ l.lock.parties) :
    ∃ q, l.lock.holder = some q := by
  cases hholder : l.lock.holder with
  | some q => exact ⟨q, rfl⟩
  | none =>
    unfold WriteLock.parties at hp
    rw [hholder, h.lock hholder] at hp
    cases hp

/-- **A caller that waits for the lock gets it**, if it waits for as many calls as come before its own. The
    induction is on their number. -/
theorem Tidy.holder_awaitLock (hworkers : 0 < env.settings.maxWorkers) (h : l.Tidy)
    (hcaller : .caller ∈ l.lock.parties) {calls : Nat} (hahead : (l.settle env).roster.ahead ≤ calls) :
    (l.awaitLock env calls).lock.holder = some .caller := by
  induction calls generalizing l with
  | zero =>
    have hsettle := h.onward_settle hworkers
    obtain ⟨q, hholder⟩ := hsettle.tidy.exists_holder (hsettle.mem_caller hcaller)
    cases q with
    | caller => exact hholder
    | worker id =>
      -- it would be calling, and its call would come before that of the caller
      have hlt := (hsettle.tidy.lighter_after_call hworkers (ready_settle env l) hholder).2
        (hsettle.mem_caller hcaller)
      omega
  | succ calls ih =>
    have hsettle := h.onward_settle hworkers
    unfold awaitLock
    dsimp only
    split
    · rename_i hholder
      exact hholder
    · rename_i hother
      obtain ⟨q, hholder⟩ := hsettle.tidy.exists_holder (hsettle.mem_caller hcaller)
      cases q with
      | caller => exact absurd hholder hother
      | worker id =>
        have hlt := (hsettle.tidy.lighter_after_call hworkers (ready_settle env l) hholder).2
          (hsettle.mem_caller hcaller)
        have hsleep := hsettle.tidy.onward_sleep hworkers (l.settle env).callRemaining
        exact ih hsleep.tidy (hsleep.mem_caller (hsettle.mem_caller hcaller)) (by omega)

theorem Tidy.onward_awaitLock (hworkers : 0 < env.settings.maxWorkers) (h : l.Tidy) (calls : Nat) :
    l.Onward (l.awaitLock env calls) := by
  induction calls generalizing l with
  | zero => exact h.onward_settle hworkers
  | succ calls ih =>
    have hsettle := h.onward_settle hworkers
    unfold awaitLock
    dsimp only
    split
    · exact hsettle
    · have hsleep := hsettle.tidy.onward_sleep hworkers (l.settle env).callRemaining
      exact (hsettle.trans hsleep).trans (ih hsleep.tidy)

/-- **A caller that asks for the lock gets it**, and is then in line for it once more than before. -/
theorem Tidy.acquire (hworkers : 0 < env.settings.maxWorkers) (h : l.Tidy) :
    (l.acquire env).Tidy ∧ (l.acquire env).lock.holder = some .caller
      ∧ (l.acquire env).lock.parties.count .caller = l.lock.parties.count .caller + 1 := by
  let requested : Link σ := { l with lock := l.lock.request .caller }
  have htidy : requested.Tidy := h.step hworkers .request
  have hcount : requested.lock.parties.count .caller = l.lock.parties.count .caller + 1 := by
    show (l.lock.request .caller).parties.count .caller = _
    rw [WriteLock.count_parties_request, if_pos rfl]
  unfold Link.acquire
  dsimp only
  split
  · rename_i hfree
    exact ⟨htidy, WriteLock.holder_request_of_none hfree .caller, hcount⟩
  · have hcaller : .caller ∈ requested.lock.parties := by
      rw [← List.count_pos_iff, hcount]
      exact Nat.succ_pos _
    have honward := htidy.onward_awaitLock hworkers l.callsAhead
    have hsettle := htidy.onward_settle hworkers
    have hahead : (requested.settle env).roster.ahead ≤ requested.roster.ahead :=
      (hsettle.ahead hcaller).elim Nat.le_of_lt And.left
    exact ⟨honward.tidy, htidy.holder_awaitLock hworkers hcaller (hahead.trans htidy.ahead_le_callsAhead),
      honward.caller.trans hcount⟩

/-! ### Callers come and go -/

/-- A frame that is handed over makes no difference to the workers. -/
theorem Tidy.handOver (h : l.Tidy) (origin : Origin) (f : Frame) : (l.handOver env origin f).1.Tidy where
  locked := by
    rw [outbox_handOver]
    exact h.locked.note _
  order := h.order.of_ready rfl rfl rfl rfl fun _ hid => hid
  counted := h.counted
  lock := h.lock
  attended := h.attended

/-- While a caller hands over frames, it keeps the lock, and workers go on. -/
theorem Tidy.onward_writeEach (hworkers : 0 < env.settings.maxWorkers) (frames : List Frame) (h : l.Tidy)
    (hholder : l.lock.holder = some .caller) :
    l.Onward (l.writeEach env frames).1 ∧ (l.writeEach env frames).1.lock.holder = some .caller := by
  induction frames generalizing l with
  | nil => exact ⟨.refl h, hholder⟩
  | cons f fs ih =>
    have hhand : l.Onward (l.handOver env .control f).1 :=
      .of_roster_eq (h.handOver .control f) (roster_handOver l .control f)
    have hcall := hhand.trans (hhand.tidy.onward_sleep hworkers (l.handOver env .control f).2.delay)
    have hkeep := (sleep_works env (l.handOver env .control f).2.delay
      (l.handOver env .control f).1).holder_caller hhand.tidy.locked hholder
    unfold writeEach
    dsimp only
    split
    · exact ⟨hcall, hkeep⟩
    · obtain ⟨hrest, hholds⟩ := ih hcall.tidy hkeep
      exact ⟨hcall.trans hrest, hholds⟩

/-- **Who writes frames gives the lock back.** -/
theorem Tidy.count_caller_write (hworkers : 0 < env.settings.maxWorkers) (frames : List Frame) (h : l.Tidy) :
    (l.write env frames).1.lock.parties.count .caller = l.lock.parties.count .caller := by
  obtain ⟨htidy, hholder, hcount⟩ := h.acquire hworkers
  obtain ⟨hwrite, hholds⟩ := htidy.onward_writeEach hworkers frames hholder
  unfold Link.write
  dsimp only
  rw [if_pos hholder]
  have hrelease : ((l.acquire env).writeEach env frames).1.release.lock
      = ((l.acquire env).writeEach env frames).1.lock.release := congrArg Roster.lock (roster_release _)
  have hbefore := hwrite.caller.trans hcount
  rw [WriteLock.parties_eq_cons hholds, List.count_cons_self] at hbefore
  show ((l.acquire env).writeEach env frames).1.release.lock.parties.count .caller = _
  rw [hrelease]
  exact Nat.succ.inj hbefore

/-- **After an act as many callers are in line for the lock as before.** -/
theorem Act.count_caller (hworkers : 0 < env.settings.maxWorkers) (act : Act env l log l') (h : l.Tidy) :
    l'.lock.parties.count .caller = l.lock.parties.count .caller := by
  cases act with
  | write type => exact h.count_caller_write hworkers _
  | sleep ms => exact (h.onward_sleep hworkers ms).caller
  | sessions | tell => rfl
  | submit accepted => rw [lock_of_submit accepted]
  | shutDown => rw [show l.shutDown.lock = l.lock from congrArg Roster.lock (roster_shutDown l)]

theorem Acts.count_caller (hworkers : 0 < env.settings.maxWorkers) (acts : Acts env l log l') (h : l.Tidy) :
    l'.lock.parties.count .caller = l.lock.parties.count .caller := by
  induction acts with
  | refl => rfl
  | tail acts act ih =>
    have htidy := Tidy.course hworkers (Acts.course acts h.locked) h
    exact (act.count_caller hworkers htidy).trans ih

end Link

/-- **Between two actions of a run no caller has the lock or wants it.** -/
theorem Endpoint.caller_not_mem_parties {carrier : σ} {e : Endpoint σ}
    (h : Endpoint.open? env carrier = .ok e) (actions : List Action) :
    .caller ∉ (e.run env actions).1.link.lock.parties := by
  obtain ⟨log, -, hacts⟩ := Endpoint.acts_run (Endpoint.Ordered.fresh h) actions
  have htidy := Endpoint.tidy_of_open? h
  obtain ⟨hrules, rfl⟩ := Endpoint.eq_of_open? h
  have hcount := Link.Acts.count_caller hrules.workers hacts htidy
  exact List.count_eq_zero.mp hcount

end HeadLink
