import HeadLink.Proofs.Drafts
import HeadLink.Proofs.Reactions

/-!
# The teardown of a session

When the rpc service of a session ends, or the last service that it has, the session is forgotten, and with it
every message of the session that is under way. Nothing of those messages is left: a message that the listener gets
later is made of frames that came later, and of earlier ones of other sessions at most. This holds if the session
is started again and the peer uses its message ids again, too.

A draft is made of frames: of a first frame and of consecutive ones of its key. Which frames these can be is settled
arrival by arrival (`Intake.sourced_after`). A teardown cuts the frames of its session off, because no draft of the
session is left that could be made of them (`Reassembly.Sourced.cut`).

## Contents
- **Made of frames.** `Draft.MadeOf` and `Message.MadeOf`.
- **Sources.** `Reassembly.Sourced`: the drafts are made of frames of a certain kind. `Drawn` is the kind of frames
  that come after a teardown, or belong to other sessions.
- **Closing.** What is left when a session closes.
- **The teardown.** `session_teardown`.
-/

namespace HeadLink

/-! ## Made of frames -/

/-- The draft of a key is made of the frames: of a first one, and of consecutive ones that came after it. -/
inductive Draft.MadeOf (k : MessageKey) : Draft → List Frame → Prop
  | mk {first : Frame} {parts : List Frame} (type : first.header.type = .first) (key : first.header.key = k)
      (follow : ∀ f ∈ parts, f.header.type = .consecutive ∧ f.header.key = k) :
      MadeOf k ⟨first.header, parts.flatMap Frame.payload⟩ (first :: parts)

/-- **The message is made of the frames**: it is the payload of a single one, or that of the consecutive ones that
    came after a first one. -/
inductive Message.MadeOf (m : Message) : List Frame → Prop
  | single {f : Frame} (type : f.header.type = .single) (payload : Message.ofPayload? f.header f.payload = .ok m) :
      MadeOf m [f]
  | split {first : Frame} {parts : List Frame} (type : first.header.type = .first)
      (follow : ∀ f ∈ parts, f.header.type = .consecutive ∧ f.header.key = first.header.key)
      (payload : Message.ofPayload? first.header (parts.flatMap Frame.payload) = .ok m) :
      MadeOf m (first :: parts)

/-- What a payload is read as is what it brings. -/
theorem Reassembly.ofPayload?_of_outcome {h : Header} {payload : Bytes} {m : Message}
    (hm : outcome h payload = .ok (some m)) : Message.ofPayload? h payload = .ok m := by
  unfold outcome at hm
  cases hread : Message.ofPayload? h payload with
  | error fault =>
    rw [hread] at hm
    cases hm
  | ok m' =>
    rw [hread] at hm
    cases hm
    rfl

namespace Draft.MadeOf

variable {k : MessageKey} {d : Draft} {frames : List Frame}

/-- All frames of a draft have its key. -/
theorem key_eq (h : d.MadeOf k frames) : ∀ f ∈ frames, f.header.key = k := by
  obtain ⟨-, hkey, hfollow⟩ := h
  intro f hf
  rcases List.mem_cons.mp hf with rfl | hf
  · exact hkey
  · exact (hfollow f hf).2

/-- A consecutive frame extends a draft. -/
theorem extend (h : d.MadeOf k frames) {f : Frame} (type : f.header.type = .consecutive)
    (key : f.header.key = k) : Draft.MadeOf k { d with bytes := d.bytes ++ f.payload } (frames ++ [f]) := by
  obtain ⟨htype, hkey, hfollow⟩ := h
  rename_i first parts
  have hmade : Draft.MadeOf k ⟨first.header, (parts ++ [f]).flatMap Frame.payload⟩ (first :: (parts ++ [f])) := by
    refine .mk htype hkey ?_
    intro g hg
    rcases List.mem_append.mp hg with hg | hg
    · exact hfollow g hg
    · rw [List.mem_singleton.mp hg]
      exact ⟨type, key⟩
  simpa [List.flatMap_append] using hmade

/-- What a finished draft brings is made of its frames. -/
theorem message (h : d.MadeOf k frames) {m : Message} (hm : Reassembly.outcome d.header d.bytes = .ok (some m)) :
    m.MadeOf frames := by
  obtain ⟨htype, rfl, hfollow⟩ := h
  exact .split htype hfollow (Reassembly.ofPayload?_of_outcome hm)

end Draft.MadeOf

/-! ## Sources -/

namespace Reassembly

variable {P Q : List Frame → Prop} {r : Reassembly}

/-- Every draft is made of frames of a certain kind. -/
def Sourced (P : List Frame → Prop) (r : Reassembly) : Prop :=
  ∀ k d, r.draft k = some d → ∃ frames, d.MadeOf k frames ∧ P frames

theorem Sourced.imp (h : r.Sourced P) (hkeep : ∀ frames, P frames → Q frames) : r.Sourced Q := by
  intro k d hd
  obtain ⟨frames, hmade, hP⟩ := h k d hd
  exact ⟨frames, hmade, hkeep frames hP⟩

theorem Sourced.discardSession (h : r.Sourced P) (session : UInt8) : (r.discardSession session).Sourced P := by
  intro k d hd
  rw [draft_discardSession] at hd
  split at hd
  · cases hd
  · exact h k d hd

/-- **A frame adds itself to what its draft is made of**, and to what the message is made of that it completes. -/
theorem Sourced.accept (h : r.Sourced P) {f : Frame} (hkeep : ∀ frames, P frames → Q frames)
    (hadd : ∀ frames, P frames → Q (frames ++ [f])) (hnew : Q [f]) :
    (r.accept f).1.Sourced Q ∧ ∀ m, (r.accept f).2 = .ok (some m) → ∃ frames, m.MadeOf frames ∧ Q frames := by
  have hrule := r.rule_accept f
  generalize hresult : (r.accept f).2 = result at hrule ⊢
  generalize hafter : (r.accept f).1.draft f.header.key = after at hrule
  generalize hbefore : r.draft f.header.key = before at hrule
  -- the drafts of other keys stay; the draft of the key of the frame keeps to the rules
  have hsourced (hown : ∀ d, after = some d → ∃ frames, d.MadeOf f.header.key frames ∧ Q frames) :
      (r.accept f).1.Sourced Q := by
    intro k d hd
    by_cases hk : f.header.key = k
    · subst hk
      exact hown d (hafter.symm.trans hd)
    · rw [draft_accept_of_ne r hk] at hd
      exact h.imp hkeep k d hd
  have hsame (heq : before = after) : (r.accept f).1.Sourced Q :=
    hsourced fun d hd => h.imp hkeep _ d (hbefore.trans (heq.trans hd))
  cases hrule with
  | single type =>
    refine ⟨hsame rfl, fun m hm => ⟨[f], .single type (ofPayload?_of_outcome hm), hnew⟩⟩
  | control | short | large | full | orphan => exact ⟨hsame rfl, nofun⟩
  | opens type =>
    refine ⟨hsourced ?_, nofun⟩
    rintro d ⟨rfl⟩
    exact ⟨[f], .mk type rfl (List.forall_mem_nil _), hnew⟩
  | overflows => exact ⟨hsourced nofun, nofun⟩
  | @adds d type =>
    obtain ⟨frames, hmade, hP⟩ := h _ d hbefore
    refine ⟨hsourced ?_, nofun⟩
    rintro d' ⟨rfl⟩
    exact ⟨frames ++ [f], hmade.extend type rfl, hadd frames hP⟩
  | @completes d type =>
    obtain ⟨frames, hmade, hP⟩ := h _ d hbefore
    refine ⟨hsourced nofun, fun m hm => ⟨frames ++ [f], ?_, hadd frames hP⟩⟩
    exact (hmade.extend type rfl).message hm

end Reassembly

/-- The frames among arrivals. -/
def Arrival.frames (arrivals : List Arrival) : List Frame := arrivals.filterMap Except.toOption

/-- **The frames came after a teardown, or they belong to other sessions**: they are some of the new ones, and before
    these some of the old ones. -/
def Drawn (session : UInt8) (old new frames : List Frame) : Prop :=
  ∃ before after, frames = before ++ after ∧ before.Sublist old ∧ after.Sublist new
    ∧ ∀ f ∈ before, f.header.session ≠ session

namespace Drawn

variable {session : UInt8} {old new frames : List Frame}

theorem keep (h : Drawn session old new frames) (more : List Frame) : Drawn session old (new ++ more) frames := by
  obtain ⟨before, after, hframes, hold, hnew, hother⟩ := h
  exact ⟨before, after, hframes, hold, hnew.trans (List.sublist_append_left new more), hother⟩

theorem add (h : Drawn session old new frames) (f : Frame) : Drawn session old (new ++ [f]) (frames ++ [f]) := by
  obtain ⟨before, after, rfl, hold, hnew, hother⟩ := h
  exact ⟨before, after ++ [f], List.append_assoc .., hold, hnew.append (List.Sublist.refl _), hother⟩

theorem single (f : Frame) : Drawn session old (new ++ [f]) [f] :=
  ⟨[], [f], rfl, List.nil_sublist _, List.sublist_append_right _ _, List.forall_mem_nil _⟩

end Drawn

/-- **A teardown cuts the frames of its session off.** -/
theorem Reassembly.Sourced.cut {session : UInt8} {frames : List Frame} {r : Reassembly}
    (h : r.Sourced (Drawn session [] frames)) :
    (r.discardSession session).Sourced (Drawn session frames []) := by
  intro k d hd
  rw [draft_discardSession] at hd
  split at hd
  · cases hd
  · rename_i hother
    obtain ⟨made, hmade, before, after, rfl, hold, hnew, -⟩ := h k d hd
    obtain rfl := List.sublist_nil.mp hold
    refine ⟨_, hmade, after, [], (List.append_nil _).symm, hnew, List.nil_sublist _, fun f hf => ?_⟩
    have hkey := hmade.key_eq f hf
    subst hkey
    exact hother

namespace Intake

variable {i : Intake} {session : UInt8} {old new : List Frame}

theorem sourced_afterControl {P : List Frame → Prop} (h : i.reassembly.Sourced P) (header : Header) :
    (i.afterControl header).reassembly.Sourced P := by
  rcases i.reassembly_cases_afterControl header with hsame | ⟨discarded, hdiscard⟩
  · rwa [hsame]
  · rw [hdiscard]
    exact h.discardSession discarded

theorem answer_ne_deliver (i : Intake) (header : Header) (m : Message) : i.answer header ≠ .deliver m := by
  unfold answer
  split <;> nofun

/-- **After an arrival, what was made of frames is so still**, with the new frame among them, and so is the message
    that it brings. -/
theorem sourced_after (h : i.reassembly.Sourced (Drawn session old new)) (a : Arrival) :
    (i.after a).reassembly.Sourced (Drawn session old (new ++ Arrival.frames [a]))
      ∧ ∀ m, i.reaction a = .deliver m →
        ∃ frames, m.MadeOf frames ∧ Drawn session old (new ++ Arrival.frames [a]) frames := by
  have hkeep := h.imp fun frames hdrawn => hdrawn.keep (Arrival.frames [a])
  cases a with
  | error fault => exact ⟨hkeep, nofun⟩
  | ok f =>
    simp only [after, reaction]
    by_cases hcontrol : f.header.type = .control
    · simp only [if_pos hcontrol]
      exact ⟨sourced_afterControl hkeep _, fun m hm => absurd hm (answer_ne_deliver i f.header m)⟩
    · simp only [if_neg hcontrol]
      obtain ⟨hsourced, hmessage⟩ := h.accept (f := f) (fun frames hdrawn => hdrawn.keep [f])
        (fun frames hdrawn => hdrawn.add f) (.single f)
      refine ⟨hsourced, fun m hm => hmessage m ?_⟩
      unfold dataReaction at hm
      split at hm <;> cases hm
      assumption

/-- What was made of frames is so still after any number of arrivals, and so are all messages that they bring. -/
theorem sourced_afterAll (h : i.reassembly.Sourced (Drawn session old new)) (arrivals : List Arrival) :
    (i.afterAll arrivals).reassembly.Sourced (Drawn session old (new ++ Arrival.frames arrivals))
      ∧ ∀ m ∈ (i.reactions arrivals).filterMap Reaction.message?,
        ∃ frames, m.MadeOf frames ∧ Drawn session old (new ++ Arrival.frames arrivals) frames := by
  induction arrivals generalizing i new with
  | nil => exact ⟨by simpa [Arrival.frames] using h, nofun⟩
  | cons a arrivals ih =>
    obtain ⟨hfirst, hmessage⟩ := sourced_after h a
    obtain ⟨hrest, hmessages⟩ := ih hfirst
    have hframes : Arrival.frames (a :: arrivals) = Arrival.frames [a] ++ Arrival.frames arrivals :=
      List.filterMap_append (l := [a])
    rw [hframes, ← List.append_assoc]
    refine ⟨hrest, fun m hm => ?_⟩
    obtain ⟨r, hr, hbrings⟩ := List.mem_filterMap.mp hm
    rcases List.mem_cons.mp hr with rfl | hr
    · have hdeliver : i.reaction a = .deliver m := by
        cases hreaction : i.reaction a with
        | deliver m' =>
          rw [hreaction] at hbrings
          cases hbrings
          rfl
        | tell | grant =>
          rw [hreaction] at hbrings
          cases hbrings
      obtain ⟨frames, hmade, hdrawn⟩ := hmessage m hdeliver
      exact ⟨frames, hmade, hdrawn.keep _⟩
    · exact hmessages m (List.mem_filterMap.mpr ⟨r, hr, hbrings⟩)

end Intake

/-! ## Closing -/

namespace Intake

variable {i : Intake} {session : UInt8}

/-- **A session is forgotten only because its rpc service has ended, or its last one**, and its messages are
    forgotten with it. -/
theorem after_of_closing {a : Arrival} (hstarted : i.sessions.isStarted session = true)
    (hclosed : (i.after a).sessions.isStarted session = false) :
    ∃ h, a.ruling? = some (.ended h) ∧ h.session = session
      ∧ (h.service = .rpc ∨ ∀ other, other ≠ h.service → i.sessions.token? session other = none)
      ∧ (i.after a).reassembly = i.reassembly.discardSession session := by
  cases a with
  | error fault => cases hstarted.symm.trans hclosed
  | ok f =>
    by_cases hcontrol : f.header.type = .control
    · simp only [after, afterControl, Arrival.ruling?, if_pos hcontrol] at hclosed ⊢
      cases hruling : f.header.ruling? with
      | none =>
        rw [hruling] at hclosed
        cases hstarted.symm.trans hclosed
      | some r =>
        rw [hruling] at hclosed
        cases r with
        | started h => cases (Sessions.isStarted_start hstarted _ _ _ _).symm.trans hclosed
        | ended h =>
          simp only [Option.map_some, Option.getD_some, follow] at hclosed ⊢
          split at hclosed
          · rename_i hbelieved
            have hsession : h.session = session := by
              by_contra hne
              rw [Sessions.isStarted_stop_of_ne (Ne.symm hne), hstarted] at hclosed
              cases hclosed
            subst hsession
            have hcloses := Sessions.stop_closes_iff.mpr ⟨hstarted, hclosed⟩
            refine ⟨h, rfl, rfl, (Sessions.stop_closes_iff_last.mp hcloses).2, ?_⟩
            rw [if_pos hbelieved]
            exact if_pos hcloses
          · cases hstarted.symm.trans hclosed
    · simp only [after, if_neg hcontrol] at hclosed
      cases hstarted.symm.trans hclosed

/-- **A control frame that closes no session leaves all messages alone.** -/
theorem reassembly_afterControl {h : Header}
    (hstay : ∀ session, i.sessions.isStarted session = true →
      (i.afterControl h).sessions.isStarted session = true) :
    (i.afterControl h).reassembly = i.reassembly := by
  unfold afterControl at hstay ⊢
  cases hruling : h.ruling? with
  | none => rfl
  | some r =>
    rw [hruling] at hstay
    cases r with
    | started h => rfl
    | ended h =>
      simp only [Option.map_some, Option.getD_some, follow] at hstay ⊢
      split
      · rename_i hbelieved
        rw [if_pos hbelieved] at hstay
        refine if_neg fun hcloses => ?_
        obtain ⟨hstarted, hclosed⟩ := Sessions.stop_closes_iff.mp hcloses
        cases (hstay _ hstarted).symm.trans hclosed
      · rfl

end Intake

/-! ## The teardown -/

/-- **No message spans a teardown.** At every moment of every history of an endpoint, and hence of every run: if an
    arrival closes a session, because the rpc service of the session ends or its last one, no message of the session
    is under way any more, the messages of other sessions are as they were, and every message that the listener gets
    in whatever comes later is made of frames of which those that came before are of other sessions. Any other
    control frame leaves the messages alone. -/
theorem session_teardown {σ : Type} (env : Environment σ) (carrier : σ) {e : Endpoint σ}
    (hopen : Endpoint.open? env carrier = .ok e) :
    (∀ actions, Endpoint.History env e (e.arrivals env actions) (e.run env actions).1)
      ∧ ∀ past e', Endpoint.History env e past e' → ∀ a : Arrival,
        (∀ session, e'.link.sessions.isStarted session = true →
          (e'.onArrival env a).link.sessions.isStarted session = false →
            (∃ h, a.ruling? = some (.ended h) ∧ h.session = session
              ∧ (h.service = .rpc ∨ ∀ other, other ≠ h.service → e'.link.sessions.token? session other = none))
            ∧ (∀ key : MessageKey, (e'.onArrival env a).reassembly.opened.get? key
              = if key.session = session then none else e'.reassembly.opened.get? key)
            ∧ ∀ later e'', Endpoint.History env (e'.onArrival env a) later e'' →
              ∃ more, e''.link.messages = (e'.onArrival env a).link.messages ++ more
                ∧ ∀ m ∈ more, ∃ old new, m.MadeOf (old ++ new)
                  ∧ old.Sublist (Arrival.frames past) ∧ new.Sublist (Arrival.frames later)
                  ∧ ∀ f ∈ old, f.header.session ≠ session)
        ∧ ∀ f, a = .ok f → f.header.type = .control →
          (∀ session, e'.link.sessions.isStarted session = true →
            (e'.onArrival env a).link.sessions.isStarted session = true) →
          (e'.onArrival env a).reassembly = e'.reassembly := by
  refine ⟨fun actions => Endpoint.history_run actions e, fun past e' history a => ?_⟩
  have hfresh := (Endpoint.Ordered.fresh hopen).outbox.locked
  have hlocked := history.locked hfresh
  have hlocked' : (e'.onArrival env a).link.outbox.Locked := (Endpoint.Move.arrive a).locked hlocked
  have hafter := Endpoint.intake_onArrival env hlocked a
  have hsessions : (e'.onArrival env a).link.sessions = (e'.intake.after a).sessions :=
    congrArg Intake.sessions hafter
  have hreassembly : (e'.onArrival env a).reassembly = (e'.intake.after a).reassembly :=
    congrArg Intake.reassembly hafter
  rw [hsessions, hreassembly]
  refine ⟨fun session hstarted hclosed => ?_, ?_⟩
  · obtain ⟨h, hruling, hsession, hreason, hdiscard⟩ := Intake.after_of_closing hstarted hclosed
    refine ⟨⟨h, hruling, hsession, hreason⟩, fun key => ?_, fun later e'' rest => ?_⟩
    · rw [hdiscard]
      exact Reassembly.get?_discardSession ..
    · -- what is under way is made of what has arrived, and after the teardown of other sessions' frames only
      have hblank : e.intake.reassembly.Sourced (Drawn session [] []) := by
        obtain ⟨-, rfl⟩ := Endpoint.eq_of_open? hopen
        exact fun _ _ hd => nomatch hd
      have hpast := (Intake.sourced_afterAll hblank past).1
      rw [← history.intake hfresh] at hpast
      have hcut : (e'.onArrival env a).intake.reassembly.Sourced (Drawn session (Arrival.frames past) []) := by
        rw [hafter, hdiscard]
        exact hpast.cut
      refine ⟨_, rest.messages hlocked', fun m hm => ?_⟩
      obtain ⟨frames, hmade, old, new, rfl, hold, hnew, hother⟩ := (Intake.sourced_afterAll hcut later).2 m hm
      exact ⟨old, new, hmade, hold, hnew, hother⟩
  · rintro f rfl hcontrol hstay
    have hsame : e'.intake.after (.ok f) = e'.intake.afterControl f.header := if_pos hcontrol
    rw [hsame] at hstay ⊢
    exact Intake.reassembly_afterControl hstay

/-- A message of session 1 and one of session 2 are under way. -/
def interrupted : List Arrival :=
  [.ok (.control 1 .rpc 1 .startServiceAck), .ok (.control 1 .rpc 2 .startServiceAck),
    .ok (.data 1 .first .rpc 0 1 0 [0, 0, 0, 12, 0, 0, 0, 2]), .ok (.data 1 .first .rpc 0 2 0 [0, 0, 0, 10, 0, 0, 0, 2]),
    .ok (.data 1 .consecutive .rpc 1 1 0 [1, 2]), .ok (.data 1 .consecutive .rpc 1 2 0 [7])]

/-- Session 1 is started again, and its message goes on, but then it begins anew. -/
def resumed : List Arrival :=
  [.ok (.control 1 .rpc 1 .startServiceAck), .ok (.data 1 .consecutive .rpc 0 1 0 [3, 4]),
    .ok (.data 1 .consecutive .rpc 0 2 0 [8]), .ok (.data 1 .first .rpc 0 1 0 [0, 0, 0, 10, 0, 0, 0, 1]),
    .ok (.data 1 .consecutive .rpc 0 1 0 [5, 6])]

/-- The message of session 2 is put together across the teardown of session 1, that of session 1 is not. -/
theorem session_teardown_resumed :
    ∃ e, Endpoint.open? contention 0 = .ok e ∧
      let e' := interrupted.foldl (Endpoint.onArrival contention) e
      let torn := e'.onArrival contention (.ok (.control 1 .rpc 1 .endService))
      let e'' := resumed.foldl (Endpoint.onArrival contention) torn
      e'.reassembly.openCount = 2
        ∧ (∀ key : MessageKey,
          torn.reassembly.opened.get? key = if key.session = 1 then none else e'.reassembly.opened.get? key)
        ∧ e''.link.messages.map (fun m => m.body.data) = [[7, 8], [5, 6]]
        ∧ ∀ m ∈ e''.link.messages, ∃ old new, m.MadeOf (old ++ new) ∧ old.Sublist (Arrival.frames interrupted)
          ∧ new.Sublist (Arrival.frames resumed) ∧ ∀ f ∈ old, f.header.session ≠ 1 := by
  have hopen : Endpoint.open? contention 0 = .ok _ := rfl
  obtain ⟨-, hhistories⟩ := session_teardown contention 0 hopen
  obtain ⟨hteardown, -⟩ := hhistories _ _ (Endpoint.history_foldl_onArrival interrupted _)
    (.ok (.control 1 .rpc 1 .endService))
  obtain ⟨-, hleft, hlater⟩ := hteardown 1 (by decide +kernel) (by decide +kernel)
  refine ⟨_, rfl, by decide +kernel, hleft, by decide +kernel, ?_⟩
  obtain ⟨more, hmore, hmade⟩ := hlater _ _ (Endpoint.history_foldl_onArrival resumed _)
  intro m hm
  rcases List.mem_append.mp (hmore ▸ hm) with hbefore | hafter
  · exact absurd (by decide +kernel) (List.ne_nil_of_mem hbefore)
  · exact hmade m hafter

end HeadLink
