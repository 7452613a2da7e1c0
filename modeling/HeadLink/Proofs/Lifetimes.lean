import Mathlib.Data.List.Induction
import HeadLink.Proofs.SessionTable

/-!
# The table of sessions and its history

Services are started and stopped in whatever order the peer pleases: they are started anew with other versions and
tokens, and stopped without having been started. What the table shows in the end can be read off the calls alone. A
service is there exactly if it was started and neither it nor the rpc service of its session was stopped since
(`Standing`), and a session is there exactly if one of its services is.

That the end of the last service closes a session needs no rule of its own in this reading: nothing is left that
stands. But it has to be shown that the table does not keep a session without services, on which messages could be
sent still (`Sessions.Peopled`).

The other way to read it is to look at the calls since the session was last absent (`SinceAbsent`): its services are
those that were started in them and not stopped since. The rpc service cannot have been stopped in between.

## Contents
- **Calls.** `SessionCall` and `Sessions.ofCalls`.
- **Histories.** `Standing`, `latestToken?`, `latestVersion?`, and what one more call does to them.
- **The table.** What one call does to tokens and versions; `Sessions.Peopled`; `token?_ofCalls`, `version?_ofCalls`,
  `isStarted_ofCalls`.
- **Absence.** `SinceAbsent`, and `SinceAbsent.standing_iff`.
- **Look-ups.** `Sessions.Coherent`: all of them show the same state.
- **The history.** `Sessions.Reflects` and `sessions_reflect_history`.
-/

namespace HeadLink

/-! ## Calls -/

/-- A call that changes the sessions. -/
inductive SessionCall where
  | start (session : UInt8) (service : ServiceType) (version : UInt8) (token : UInt32)
  | stop (session : UInt8) (service : ServiceType)
  deriving DecidableEq

/-- The session that a call is for. -/
def SessionCall.session : SessionCall → UInt8
  | .start session _ _ _ | .stop session _ => session

/-- The sessions after one more call. -/
def Sessions.apply (s : Sessions) : SessionCall → Sessions
  | .start session service version token => s.start session service version token
  | .stop session service => (s.stop session service).1

/-- The sessions after calls, one after the other, if there are none at first. -/
def Sessions.ofCalls (calls : List SessionCall) : Sessions := calls.foldl Sessions.apply ∅

theorem Sessions.ofCalls_snoc (calls : List SessionCall) (c : SessionCall) :
    ofCalls (calls ++ [c]) = (ofCalls calls).apply c := by
  simp [ofCalls]

/-! ## Histories -/

/-- The service was started, and since then neither it nor the rpc service of its session was stopped. -/
def Standing (calls : List SessionCall) (session : UInt8) (service : ServiceType) : Prop :=
  ∃ before version token since, calls = before ++ .start session service version token :: since
    ∧ .stop session service ∉ since ∧ .stop session .rpc ∉ since

/-- The token that a call gives to the service. -/
def SessionCall.token? (session : UInt8) (service : ServiceType) : SessionCall → Option UInt32
  | .start session' service' _ token => if session' = session ∧ service' = service then some token else none
  | .stop .. => none

/-- The version that a call gives to the session. -/
def SessionCall.version? (session : UInt8) : SessionCall → Option UInt8
  | .start session' _ version _ => if session' = session then some version else none
  | .stop .. => none

/-- The token of the latest start of the service. -/
def latestToken? (calls : List SessionCall) (session : UInt8) (service : ServiceType) : Option UInt32 :=
  (calls.filterMap (SessionCall.token? session service)).getLast?

/-- The version of the latest start on the session, of whatever service. -/
def latestVersion? (calls : List SessionCall) (session : UInt8) : Option UInt8 :=
  (calls.filterMap (SessionCall.version? session)).getLast?

section

variable {calls : List SessionCall} {session session' : UInt8} {service service' : ServiceType} {version : UInt8}
  {token : UInt32}

/-- A call with calls after it is among those before the last one, or it is the last one. -/
theorem snoc_eq_iff {before since : List SessionCall} {c last : SessionCall} :
    calls ++ [last] = before ++ c :: since
      ↔ (calls = before ∧ last = c ∧ since = []) ∨ ∃ since', since = since' ++ [last] ∧ calls = before ++ c :: since' := by
  constructor
  · intro h
    rcases since.eq_nil_or_concat with rfl | ⟨since', last', rfl⟩
    · obtain ⟨hcalls, hlast⟩ := List.append_inj' h rfl
      exact Or.inl ⟨hcalls, List.singleton_inj.mp hlast, rfl⟩
    · rw [List.concat_eq_append, ← List.cons_append, ← List.append_assoc] at h
      obtain ⟨hcalls, hlast⟩ := List.append_inj' h rfl
      rw [List.singleton_inj.mp hlast]
      exact Or.inr ⟨since', List.concat_eq_append, hcalls⟩
  · rintro (⟨rfl, rfl, rfl⟩ | ⟨since', rfl, rfl⟩)
    · rfl
    · simp

theorem standing_nil : ¬ Standing [] session service := by
  rintro ⟨before, version, token, since, hcalls, -⟩
  simp at hcalls

theorem standing_start : Standing (calls ++ [.start session' service' version token]) session service
    ↔ (session = session' ∧ service = service') ∨ Standing calls session service := by
  constructor
  · rintro ⟨before, v, t, since, hcalls, hstop, hrpc⟩
    rcases snoc_eq_iff.mp hcalls with ⟨-, hlast, -⟩ | ⟨since', rfl, rfl⟩
    · cases hlast
      exact Or.inl ⟨rfl, rfl⟩
    · exact Or.inr ⟨before, v, t, since', rfl, fun h => hstop (List.mem_append_left _ h),
        fun h => hrpc (List.mem_append_left _ h)⟩
  · rintro (⟨rfl, rfl⟩ | ⟨before, v, t, since, rfl, hstop, hrpc⟩)
    · exact ⟨calls, version, token, [], rfl, List.not_mem_nil, List.not_mem_nil⟩
    · exact ⟨before, v, t, since ++ [.start session' service' version token], by simp, by simpa using hstop,
        by simpa using hrpc⟩

theorem standing_stop : Standing (calls ++ [.stop session' service']) session service
    ↔ Standing calls session service ∧ ¬ (session = session' ∧ (service' = .rpc ∨ service = service')) := by
  constructor
  · rintro ⟨before, v, t, since, hcalls, hstop, hrpc⟩
    rcases snoc_eq_iff.mp hcalls with ⟨-, hlast, -⟩ | ⟨since', rfl, rfl⟩
    · cases hlast
    · refine ⟨⟨before, v, t, since', rfl, fun h => hstop (List.mem_append_left _ h),
        fun h => hrpc (List.mem_append_left _ h)⟩, ?_⟩
      rintro ⟨rfl, rfl | rfl⟩
      · exact hrpc (by simp)
      · exact hstop (by simp)
  · rintro ⟨⟨before, v, t, since, rfl, hstop, hrpc⟩, hother⟩
    refine ⟨before, v, t, since ++ [.stop session' service'], by simp, ?_, ?_⟩
    · intro hmem
      rcases List.mem_append.mp hmem with hmem | hmem
      · exact hstop hmem
      · cases List.mem_singleton.mp hmem
        exact hother ⟨rfl, Or.inr rfl⟩
    · intro hmem
      rcases List.mem_append.mp hmem with hmem | hmem
      · exact hrpc hmem
      · cases List.mem_singleton.mp hmem
        exact hother ⟨rfl, Or.inl rfl⟩

theorem latestToken?_start : latestToken? (calls ++ [.start session' service' version token]) session service
    = if session = session' ∧ service = service' then some token else latestToken? calls session service := by
  by_cases h : session = session' ∧ service = service'
  · simp [latestToken?, SessionCall.token?, h]
  · have hnone : SessionCall.token? session service (.start session' service' version token) = none :=
      if_neg fun hsame => h ⟨hsame.1.symm, hsame.2.symm⟩
    simp [latestToken?, hnone, h]

theorem latestToken?_stop : latestToken? (calls ++ [.stop session' service']) session service
    = latestToken? calls session service := by
  simp [latestToken?, SessionCall.token?]

theorem latestVersion?_start : latestVersion? (calls ++ [.start session' service' version token]) session
    = if session = session' then some version else latestVersion? calls session := by
  by_cases h : session = session'
  · simp [latestVersion?, SessionCall.version?, h]
  · simp [latestVersion?, SessionCall.version?, h, Ne.symm h]

theorem latestVersion?_stop : latestVersion? (calls ++ [.stop session' service']) session
    = latestVersion? calls session := by
  simp [latestVersion?, SessionCall.version?]

/-- What stands was started with some token. -/
theorem exists_latestToken (h : Standing calls session service) :
    ∃ token, latestToken? calls session service = some token := by
  obtain ⟨before, version, token, since, rfl, -⟩ := h
  refine Option.isSome_iff_exists.mp (List.getLast?_isSome.mpr (List.ne_nil_of_mem (a := token) ?_))
  exact List.mem_filterMap.mpr ⟨.start session service version token, by simp, if_pos ⟨rfl, rfl⟩⟩

end

/-! ## The table -/

namespace Sessions

variable {s : Sessions} {session session' : UInt8} {service service' : ServiceType} {version : UInt8} {token : UInt32}

/-- **Every session that is there has a service.** -/
def Peopled (s : Sessions) : Prop :=
  ∀ session state, s.get? session = some state → ∃ service token, state.services.get? service = some token

theorem Peopled.start (h : s.Peopled) (session : UInt8) (service : ServiceType) (version : UInt8) (token : UInt32) :
    (s.start session service version token).Peopled := by
  intro session' state hstate
  unfold Sessions.start at hstate
  rw [Table.get?_insert] at hstate
  split at hstate
  · cases hstate
    exact ⟨service, token, by simp [Table.get?_insert]⟩
  · exact h session' state hstate

/-- A session that would be left without services is closed. -/
theorem Peopled.stop (h : s.Peopled) (session : UInt8) (service : ServiceType) :
    (s.stop session service).1.Peopled := by
  intro session' state hstate
  unfold Sessions.stop at hstate
  split at hstate
  · exact h session' state hstate
  · rename_i old hold
    dsimp only at hstate
    split at hstate
    · rw [Table.get?_erase] at hstate
      split at hstate
      · cases hstate
      · exact h session' state hstate
    · rename_i hstays
      rw [Table.get?_insert] at hstate
      split at hstate
      · cases hstate
        have hsize : (old.services.erase service).size ≠ 0 := fun hempty => hstays (Or.inr hempty)
        rw [ne_eq, Table.size_eq_zero_iff, not_forall] at hsize
        obtain ⟨service', hservice'⟩ := hsize
        exact ⟨service', Option.ne_none_iff_exists'.mp hservice'⟩
      · exact h session' state hstate

/-- Where every session has a service, a session is there exactly if one of its services has a token. -/
theorem Peopled.isStarted_iff (h : s.Peopled) :
    s.isStarted session = true ↔ ∃ service token, s.token? session service = some token := by
  rw [isStarted, Table.contains_iff]
  constructor
  · rintro ⟨state, hstate⟩
    obtain ⟨service, token, htoken⟩ := h session state hstate
    exact ⟨service, token, by simp [token?, hstate, htoken]⟩
  · rintro ⟨service, token, htoken⟩
    obtain ⟨state, hstate, -⟩ := Option.bind_eq_some_iff.mp htoken
    exact ⟨state, hstate⟩

theorem peopled_ofCalls (calls : List SessionCall) : (ofCalls calls).Peopled := by
  induction calls using List.reverseRecOn with
  | nil =>
    intro session state hstate
    cases hstate
  | append_singleton calls c ih =>
    rw [ofCalls_snoc]
    cases c with
    | start session service version token => exact ih.start session service version token
    | stop session service => exact ih.stop session service

variable {calls : List SessionCall}

/-- **The services that are there are those that stand**, each with the token of its latest start. -/
theorem token?_ofCalls : (ofCalls calls).token? session service = some token
    ↔ Standing calls session service ∧ latestToken? calls session service = some token := by
  induction calls using List.reverseRecOn with
  | nil =>
    constructor
    · intro h
      cases h
    · exact fun h => absurd h.1 standing_nil
  | append_singleton calls c ih =>
    rw [ofCalls_snoc]
    cases c with
    | start session' service' version' token' =>
      rw [standing_start, latestToken?_start, apply, token?_start]
      by_cases hself : session = session' ∧ service = service'
      · simp [hself]
      · rw [if_neg hself, if_neg hself, ih, or_iff_right hself]
    | stop session' service' =>
      rw [standing_stop, latestToken?_stop, apply, token?_stop]
      by_cases hends : session = session' ∧ (service' = .rpc ∨ service = service')
      · simp [hends]
      · rw [if_neg hends, ih, and_iff_left hends]

theorem token?_ofCalls_eq_none : (ofCalls calls).token? session service = none ↔ ¬ Standing calls session service := by
  constructor
  · intro hnone hstanding
    obtain ⟨token, htoken⟩ := exists_latestToken hstanding
    cases hnone.symm.trans (token?_ofCalls.mpr ⟨hstanding, htoken⟩)
  · intro hgone
    rw [Option.eq_none_iff_forall_ne_some]
    exact fun token htoken => hgone (token?_ofCalls.mp htoken).1

/-- **A session is there exactly if one of its services stands.** -/
theorem isStarted_ofCalls : (ofCalls calls).isStarted session = true ↔ ∃ service, Standing calls session service := by
  rw [(peopled_ofCalls calls).isStarted_iff]
  constructor
  · rintro ⟨service, token, htoken⟩
    exact ⟨service, (token?_ofCalls.mp htoken).1⟩
  · rintro ⟨service, hstanding⟩
    obtain ⟨token, htoken⟩ := exists_latestToken hstanding
    exact ⟨service, token, token?_ofCalls.mpr ⟨hstanding, htoken⟩⟩

/-- **The version of a session is that of its latest start.** -/
theorem version?_ofCalls : (ofCalls calls).version? session = some version
    ↔ (ofCalls calls).isStarted session = true ∧ latestVersion? calls session = some version := by
  induction calls using List.reverseRecOn with
  | nil =>
    constructor
    · intro h
      cases h
    · rintro ⟨h, -⟩
      cases h
  | append_singleton calls c ih =>
    rw [ofCalls_snoc]
    cases c with
    | start session' service' version' token' =>
      rw [latestVersion?_start, apply, version?_start]
      by_cases hself : session = session'
      · subst hself
        simp [isStarted_start_self]
      · have hother : ((ofCalls calls).start session' service' version' token').isStarted session
            = (ofCalls calls).isStarted session := by
          rw [isStarted_eq_isSome_get?, get?_start_of_ne hself, ← isStarted_eq_isSome_get?]
        rw [if_neg hself, if_neg hself, ih, hother]
    | stop session' service' =>
      rw [latestVersion?_stop, apply, version?_stop_eq_some_iff]
      constructor
      · rintro ⟨hleft, hversion⟩
        exact ⟨hleft, (ih.mp hversion).2⟩
      · rintro ⟨hleft, hlatest⟩
        refine ⟨hleft, ih.mpr ⟨?_, hlatest⟩⟩
        -- a stop brings no session into the table
        rw [← apply, ← ofCalls_snoc, isStarted_ofCalls] at hleft
        obtain ⟨service, hstanding⟩ := hleft
        exact isStarted_ofCalls.mpr ⟨service, (standing_stop.mp hstanding).1⟩

end Sessions

/-! ## Absence -/

section

variable {calls before since : List SessionCall} {session : UInt8} {service : ServiceType}

/-- The session was absent before the latter calls, and present after each of them. -/
structure SinceAbsent (session : UInt8) (before since : List SessionCall) : Prop where
  absent : (Sessions.ofCalls before).isStarted session = false
  present : ∀ first c rest, since = first ++ c :: rest →
    (Sessions.ofCalls (before ++ first ++ [c])).isStarted session = true

/-- The service was started in these calls and not stopped after that. -/
def StartedIn (since : List SessionCall) (session : UInt8) (service : ServiceType) : Prop :=
  ∃ first version token rest, since = first ++ .start session service version token :: rest
    ∧ .stop session service ∉ rest

/-- There is always a moment since which a session is not absent; it may be the present one. -/
theorem exists_sinceAbsent (calls : List SessionCall) (session : UInt8) :
    ∃ before since, calls = before ++ since ∧ SinceAbsent session before since := by
  induction calls using List.reverseRecOn with
  | nil => exact ⟨[], [], rfl, rfl, by simp⟩
  | append_singleton calls c ih =>
    cases hnow : (Sessions.ofCalls (calls ++ [c])).isStarted session with
    | false => exact ⟨calls ++ [c], [], (List.append_nil _).symm, hnow, by simp⟩
    | true =>
      obtain ⟨before, since, rfl, habsent, hpresent⟩ := ih
      refine ⟨before, since ++ [c], List.append_assoc .., habsent, ?_⟩
      intro first c' rest hsplit
      rcases snoc_eq_iff.mp hsplit with ⟨rfl, rfl, -⟩ | ⟨rest', -, hsince⟩
      · exact hnow
      · exact hpresent first c' rest' hsince

/-- While a session is present, its rpc service is not stopped. -/
theorem SinceAbsent.not_mem (h : SinceAbsent session before since) : .stop session .rpc ∉ since := by
  intro hmem
  obtain ⟨first, rest, hsplit⟩ := List.append_of_mem hmem
  obtain ⟨service, hstanding⟩ := Sessions.isStarted_ofCalls.mp (h.present first _ rest hsplit)
  exact (standing_stop.mp hstanding).2 ⟨rfl, Or.inl rfl⟩

/-- **What stands was started since the session was last absent, and not stopped since**: at that moment nothing
    stood. -/
theorem SinceAbsent.standing_iff (h : SinceAbsent session before since) :
    Standing (before ++ since) session service ↔ StartedIn since session service := by
  constructor
  · rintro ⟨first, version, token, rest, hsplit, hstop, hrpc⟩
    rcases List.append_eq_append_iff.mp hsplit with ⟨middle, rfl, hsince⟩ | ⟨middle, hbefore, hmiddle⟩
    · exact ⟨middle, version, token, rest, hsince, hstop⟩
    · cases middle with
      | nil => exact ⟨[], version, token, rest, hmiddle.symm, hstop⟩
      | cons c middle =>
        -- a start before that moment would stand at that moment
        rw [List.cons_append, List.cons.injEq] at hmiddle
        obtain ⟨rfl, rfl⟩ := hmiddle
        have hstood : Standing before session service := ⟨first, version, token, middle, hbefore,
          fun hmem => hstop (List.mem_append_left _ hmem), fun hmem => hrpc (List.mem_append_left _ hmem)⟩
        cases h.absent.symm.trans (Sessions.isStarted_ofCalls.mpr ⟨service, hstood⟩)
  · rintro ⟨first, version, token, rest, rfl, hstop⟩
    refine ⟨before ++ first, version, token, rest, (List.append_assoc ..).symm, hstop, fun hmem => h.not_mem ?_⟩
    exact List.mem_append_right _ (List.mem_cons_of_mem _ hmem)

end

/-! ## Look-ups -/

/-- **All look-ups of a session show the same state**, or that there is none. -/
def Sessions.Coherent (s : Sessions) (session : UInt8) : Prop :=
  match s.get? session with
  | none => s.isStarted session = false ∧ s.version? session = none
      ∧ s.requireStarted session = .error (.notStarted session) ∧ ∀ service, s.token? session service = none
  | some state => s.isStarted session = true ∧ s.version? session = some state.version
      ∧ s.requireStarted session = .ok state.version
      ∧ (∀ service, s.token? session service = state.services.get? service)
      ∧ ∀ service token, (service, token) ∈ state.serviceTokens ↔ state.services.get? service = some token

theorem Session.mem_serviceTokens {state : Session} {service : ServiceType} {token : UInt32} :
    (service, token) ∈ state.serviceTokens ↔ state.services.get? service = some token := by
  simp [serviceTokens, List.mem_filterMap, ServiceType.mem_all]

theorem Sessions.coherent (s : Sessions) (session : UInt8) : s.Coherent session := by
  unfold Coherent
  cases hs : s.get? session with
  | none => simp [isStarted_eq_isSome_get?, version?, requireStarted, token?, hs]
  | some state => simp [isStarted_eq_isSome_get?, version?, requireStarted, token?, hs, Session.mem_serviceTokens]

/-! ## The history -/

/-- **What a table of sessions shows of one session after these calls.** -/
structure Sessions.Reflects (s : Sessions) (calls : List SessionCall) (session : UInt8) : Prop where
  /-- The session is there exactly if one of its services stands. -/
  present : s.isStarted session = true ↔ ∃ service, Standing calls session service
  /-- Its services are those that stand, each with the token of its latest start. -/
  tokens : ∀ service token, s.token? session service = some token
    ↔ Standing calls session service ∧ latestToken? calls session service = some token
  /-- There are never none. -/
  peopled : ∀ state, s.get? session = some state → ∃ service token, state.services.get? service = some token
  /-- Its version is that of its latest start. -/
  version : ∀ version, s.version? session = some version
    ↔ s.isStarted session = true ∧ latestVersion? calls session = some version
  /-- There is a moment when the session was last absent. -/
  cut : ∃ before since, calls = before ++ since ∧ SinceAbsent session before since
  /-- What stands is what was started since then, and not stopped after that. -/
  since : ∀ before since, calls = before ++ since → SinceAbsent session before since →
    ∀ service, Standing calls session service ↔ StartedIn since session service
  /-- A stop says that the session closes exactly if it was there before and is not there after it. -/
  closes : ∀ service, (s.stop session service).2 = true
    ↔ s.isStarted session = true ∧ (s.stop session service).1.isStarted session = false
  /-- That is so exactly if the session is there, and the stopped service is the rpc service or no other is left. -/
  closing : ∀ service, (s.stop session service).2 = true
    ↔ s.isStarted session = true ∧ (service = .rpc ∨ ∀ other, other ≠ service → ¬ Standing calls session other)
  /-- Calls for other sessions do not change it. -/
  apart : ∀ c : SessionCall, c.session ≠ session → (s.apply c).get? session = s.get? session
  coherent : s.Coherent session

/-- A call for one session leaves the others alone. -/
theorem Sessions.get?_apply_of_ne (s : Sessions) {c : SessionCall} {session : UInt8} (h : c.session ≠ session) :
    (s.apply c).get? session = s.get? session := by
  cases c with
  | start session' service version token => exact get?_start_of_ne (Ne.symm h) service version token
  | stop session' service => exact get?_stop_of_ne (Ne.symm h) service

/-- **The table of sessions implements its history.** Whatever calls were made, in whatever order, the table shows of
    each session what can be read off the calls. -/
theorem sessions_reflect_history (calls : List SessionCall) (session : UInt8) :
    (Sessions.ofCalls calls).Reflects calls session where
  present := Sessions.isStarted_ofCalls
  tokens _ _ := Sessions.token?_ofCalls
  peopled := Sessions.peopled_ofCalls calls session
  version _ := Sessions.version?_ofCalls
  cut := exists_sinceAbsent calls session
  since := by
    rintro before since rfl hsince service
    exact hsince.standing_iff
  closes _ := Sessions.stop_closes_iff
  closing service := by
    rw [Sessions.stop_closes_iff_last]
    simp only [Sessions.token?_ofCalls_eq_none]
  apart _ := Sessions.get?_apply_of_ne _
  coherent := Sessions.coherent _ _

/-- A stop of the rpc service closes a session on which that service was never started. What was started before that
    does not come back with the session. -/
example :
    let s := Sessions.ofCalls [.start 5 .nav 1 10, .start 5 .audio 2 11, .stop 5 .rpc, .start 5 .audio 3 12]
    s.version? 5 = some 3 ∧ s.token? 5 .audio = some 12 ∧ s.token? 5 .nav = none := by
  decide

end HeadLink
