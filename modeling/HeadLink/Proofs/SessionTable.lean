import HeadLink.Sessions
import HeadLink.Proofs.Tables

/-!
# What starts and stops do to the table of sessions

A start and a stop are described by what the look-ups show after them. All that is known of sessions elsewhere is
derived from this.

## Contents
- **Other sessions.** `Sessions.get?_start_of_ne` and `Sessions.get?_stop_of_ne`: they are left alone.
- **Versions.** `Sessions.version?_start` and `Sessions.version?_stop_eq_some_iff`.
- **Tokens.** `Sessions.token?_start` and `Sessions.token?_stop`.
- **Presence.** When sessions close (`Sessions.stop_closes_iff`, `Sessions.stop_closes_iff_last`).
-/

namespace HeadLink.Sessions

variable {s : Sessions} {session session' : UInt8} {service service' : ServiceType} {version : UInt8} {token : UInt32}

/-! ## Other sessions -/

/-- A service that starts leaves the other sessions alone. -/
theorem get?_start_of_ne {other : UInt8} (h : other ≠ session) (service : ServiceType) (version : UInt8)
    (token : UInt32) : (s.start session service version token).get? other = s.get? other := by
  unfold start
  rw [Table.get?_insert, if_neg h]

/-- A service that ends leaves the other sessions alone. -/
theorem get?_stop_of_ne {other : UInt8} (h : other ≠ session) (service : ServiceType) :
    (s.stop session service).1.get? other = s.get? other := by
  unfold stop
  split
  · rfl
  · dsimp only
    split
    · rw [Table.get?_erase, if_neg h]
    · rw [Table.get?_insert, if_neg h]

/-! ## Versions -/

theorem version?_insert (s : Sessions) (session session' : UInt8) (state : Session) :
    version? (s.insert session state) session'
      = if session' = session then some state.version else s.version? session' := by
  unfold version?
  rw [Table.get?_insert]
  split <;> rfl

theorem version?_erase (s : Sessions) (session session' : UInt8) :
    version? (s.erase session) session' = if session' = session then none else s.version? session' := by
  unfold version?
  rw [Table.get?_erase]
  split <;> rfl

theorem version?_start : (s.start session service version token).version? session'
    = if session' = session then some version else s.version? session' := by
  simp [start, version?_insert]

/-- What is left of a session that a service is taken from has kept its version. -/
theorem version?_of_stop (h : (s.stop session service).1.version? session' = some version) :
    s.version? session' = some version := by
  unfold stop at h
  split at h
  · exact h
  · rename_i state hstate
    dsimp only at h
    split at h
    · rw [version?_erase] at h
      split at h
      · cases h
      · exact h
    · rw [version?_insert] at h
      split at h
      · rename_i hsession
        simpa [version?, hsession, hstate] using h
      · exact h

/-- A session that is left has kept its version. -/
theorem version?_stop_eq_some_iff : (s.stop session service).1.version? session' = some version
    ↔ (s.stop session service).1.isStarted session' = true ∧ s.version? session' = some version := by
  rw [isStarted, Table.contains_eq_isSome_get?, Option.isSome_iff_exists]
  constructor
  · intro h
    obtain ⟨state, hstate, -⟩ := Option.map_eq_some_iff.mp h
    exact ⟨⟨state, hstate⟩, version?_of_stop h⟩
  · rintro ⟨⟨state, hstate⟩, h⟩
    have hleft : (s.stop session service).1.version? session' = some state.version := by simp [version?, hstate]
    rw [hleft, ← version?_of_stop hleft, h]

/-! ## Tokens -/

theorem token?_start : (s.start session service version token).token? session' service'
    = if session' = session ∧ service' = service then some token else s.token? session' service' := by
  unfold start token?
  by_cases hsession : session' = session
  · cases hs : s.get? session with
    | none => simp [Table.get?_insert, hsession, hs]
    | some state => simp [Table.get?_insert, hsession, hs]
  · simp [Table.get?_insert, hsession]

/-- **What a stop takes**: the token of the service, and all tokens of the session if it is the rpc service. If the
    session closes for want of services, there are no other tokens to take. -/
theorem token?_stop : (s.stop session service).1.token? session' service'
    = if session' = session ∧ (service = .rpc ∨ service' = service) then none else s.token? session' service' := by
  by_cases hsession : session' = session
  · subst hsession
    unfold stop
    cases hs : s.get? session' with
    | none => simp [token?, hs]
    | some state =>
      have hself : s.token? session' service' = state.services.get? service' := by simp [token?, hs]
      rw [hself]
      by_cases hrpc : service = .rpc
      · simp [hrpc, token?, Table.get?_erase]
      · by_cases hempty : (state.services.erase service).size = 0
        · have hnone := Table.size_eq_zero_iff.mp hempty service'
          rw [Table.get?_erase] at hnone
          simp only [hrpc, hempty, false_or, or_true, if_true, true_and, hnone]
          simp [token?, Table.get?_erase]
        · simp [hrpc, hempty, token?, Table.get?_insert, Table.get?_erase]
  · unfold token?
    rw [get?_stop_of_ne hsession, if_neg fun h => hsession h.1]

/-- A service that is left has kept its token. -/
theorem token?_of_stop (h : (s.stop session service).1.token? session' service' = some token) :
    s.token? session' service' = some token := by
  rw [token?_stop] at h
  split at h
  · cases h
  · exact h

/-- A service that has ended has no token. -/
theorem token?_stop_self : (s.stop session service).1.token? session service = none := by
  rw [token?_stop, if_pos ⟨rfl, Or.inr rfl⟩]

/-- A session with a started service has a version. -/
theorem exists_version_of_token (h : (s.token? session service).isSome) :
    ∃ version, s.version? session = some version := by
  cases hs : s.get? session with
  | none => simp [token?, hs] at h
  | some state => exact ⟨state.version, by simp [version?, hs]⟩

/-! ## Presence -/

theorem isStarted_eq_isSome_get? (s : Sessions) (session : UInt8) : s.isStarted session = (s.get? session).isSome :=
  Table.contains_eq_isSome_get? s session

theorem get?_ne_none_of_isStarted (h : s.isStarted session = true) : s.get? session ≠ none := by
  rw [isStarted_eq_isSome_get?] at h
  exact Option.isSome_iff_ne_none.mp h

/-- A service that starts ends no session. -/
theorem isStarted_start {other : UInt8} (h : s.isStarted other = true) (session : UInt8) (service : ServiceType)
    (version : UInt8) (token : UInt32) : (s.start session service version token).isStarted other = true := by
  rw [isStarted_eq_isSome_get?] at *
  unfold start
  rw [Table.get?_insert]
  split
  · rfl
  · exact h

/-- A session that a service is started on is there. -/
theorem isStarted_start_self : (s.start session service version token).isStarted session = true := by
  simp [isStarted_eq_isSome_get?, start, Table.get?_insert]

/-- A service that ends leaves the other sessions alone. -/
theorem isStarted_stop_of_ne {other : UInt8} (h : other ≠ session) :
    (s.stop session service).1.isStarted other = s.isStarted other := by
  rw [isStarted_eq_isSome_get?, get?_stop_of_ne h, ← isStarted_eq_isSome_get?]

/-- **A session closes exactly if there is none any more.** -/
theorem stop_closes_iff : (s.stop session service).2 = true ↔
    s.isStarted session = true ∧ (s.stop session service).1.isStarted session = false := by
  unfold stop
  simp only [isStarted_eq_isSome_get?]
  cases hs : s.get? session with
  | none => simp
  | some state =>
    by_cases hcloses : service = .rpc ∨ (state.services.erase service).size = 0
    · simp [hcloses, Table.get?_erase]
    · simp [hcloses, Table.get?_insert]

/-- **Which stops close a session**: that of its rpc service, and that of the last service that it has. -/
theorem stop_closes_iff_last : (s.stop session service).2 = true ↔ s.isStarted session = true
    ∧ (service = .rpc ∨ ∀ other, other ≠ service → s.token? session other = none) := by
  cases hs : s.get? session with
  | none => simp [stop, isStarted_eq_isSome_get?, hs]
  | some state =>
    have hlast : (state.services.erase service).size = 0 ↔ ∀ other, other ≠ service → s.token? session other = none := by
      simp [Table.size_eq_zero_iff, Table.get?_erase, token?, hs]
    rw [← hlast]
    by_cases hcloses : service = .rpc ∨ (state.services.erase service).size = 0
    · simp [stop, isStarted_eq_isSome_get?, hs, hcloses]
    · simp [stop, hs, hcloses]

/-- **Which started services take their session with them**: the rpc service, and the last one. -/
theorem stop_removes_iff (hstarted : (s.token? session service).isSome) :
    (s.stop session service).1.isStarted session = false
      ↔ service = .rpc ∨ ∀ other, other ≠ service → s.token? session other = none := by
  have hopen : s.isStarted session = true := by
    obtain ⟨token, htoken⟩ := Option.isSome_iff_exists.mp hstarted
    obtain ⟨state, hstate, -⟩ := Option.bind_eq_some_iff.mp htoken
    rw [isStarted_eq_isSome_get?, hstate]
    rfl
  constructor
  · exact fun hclosed => (stop_closes_iff_last.mp (stop_closes_iff.mpr ⟨hopen, hclosed⟩)).2
  · exact fun hreason => (stop_closes_iff.mp (stop_closes_iff_last.mpr ⟨hopen, hreason⟩)).2

end HeadLink.Sessions
