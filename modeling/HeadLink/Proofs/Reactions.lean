import HeadLink.Proofs.Mirror

/-!
# Reactions

What an endpoint makes of an arrival is decided by little: the sessions, the messages under way, and the version.
From these follow what they are afterwards (`Intake.after`) and the one thing that the arrival calls for
(`Intake.reaction`): the listener is told something, it is given a message, or a request of the peer is granted.
The listener and the transport may fail at that, but there is nothing that they could tell the intake.

Nor does anything else change the intake. At every moment of every history it is what the arrivals have made of it
(`Endpoint.History.intake`), and the listener has got exactly the messages that they call for
(`Endpoint.History.messages`).

## Contents
- **Intakes.** `Intake`, and what becomes of it.
- **Reactions.** `Reaction`, and what an arrival calls for.
- **Endpoints.** `Endpoint.onArrival_eq`: an arrival changes the intake, and then its reaction is carried out.
- **Histories.** What a history makes of the intake, and which messages the listener gets.
-/

namespace HeadLink

/-! ## Intakes -/

/-- What decides what an endpoint makes of an arrival. -/
structure Intake where
  sessions : Sessions
  reassembly : Reassembly
  version : UInt8

namespace Intake

/-- The version that a frame is held to: that of its session, or its own if there is no session. -/
def versionOf (i : Intake) (h : Header) : UInt8 := (i.sessions.version? h.session).getD h.version

/-- Whether a frame that ends a service is to be believed. -/
def believes (i : Intake) (h : Header) : Bool :=
  i.versionOf h < 2 || i.sessions.token? h.session h.service = some h.message

/-- What becomes of an intake with a ruling of the peer. -/
def follow (i : Intake) : Ruling → Intake
  | .started h =>
    { i with
      sessions := i.sessions.start h.session h.service h.version (if 2 ≤ h.version then h.message else 0)
      version := if h.service = .rpc then h.version else i.version }
  | .ended h =>
    if i.believes h then
      { i with
        sessions := (i.sessions.stop h.session h.service).1
        reassembly :=
          if (i.sessions.stop h.session h.service).2 then i.reassembly.discardSession h.session
          else i.reassembly }
    else i

/-- What becomes of an intake with a control frame. -/
def afterControl (i : Intake) (h : Header) : Intake := (h.ruling?.map i.follow).getD i

/-- A control frame discards the messages of a session at most. -/
theorem reassembly_cases_afterControl (i : Intake) (h : Header) : (i.afterControl h).reassembly = i.reassembly
    ∨ ∃ session, (i.afterControl h).reassembly = i.reassembly.discardSession session := by
  unfold afterControl
  cases h.ruling? with
  | none => exact Or.inl rfl
  | some r =>
    cases r with
    | started header => exact Or.inl rfl
    | ended header =>
      simp only [Option.map_some, Option.getD_some, follow]
      split
      · dsimp only
        split
        · exact Or.inr ⟨_, rfl⟩
        · exact Or.inl rfl
      · exact Or.inl rfl

/-- **What becomes of an intake** with an arrival. -/
def after (i : Intake) : Arrival → Intake
  | .ok f =>
    if f.header.type = .control then i.afterControl f.header
    else { i with reassembly := (i.reassembly.accept f).1 }
  | .error _ => i

/-- What becomes of an intake with arrivals, one after the other. -/
def afterAll (i : Intake) (arrivals : List Arrival) : Intake := arrivals.foldl after i

@[simp] theorem afterAll_nil (i : Intake) : i.afterAll [] = i := rfl

@[simp] theorem afterAll_cons (i : Intake) (a : Arrival) (arrivals : List Arrival) :
    i.afterAll (a :: arrivals) = (i.after a).afterAll arrivals := rfl

@[simp] theorem afterAll_append (i : Intake) (first second : List Arrival) :
    i.afterAll (first ++ second) = (i.afterAll first).afterAll second := List.foldl_append

end Intake

/-! ## Reactions -/

/-- **What an arrival calls for.** -/
inductive Reaction where
  /-- The listener is told something, or nothing. -/
  | tell (notices : List Notice)
  /-- The listener is given a message, which it may refuse. -/
  | deliver (m : Message)
  /-- The peer's request to start a service is granted, which the transport may fail to carry. -/
  | grant (h : Header)
  deriving DecidableEq

/-- The message that a reaction brings. -/
def Reaction.message? : Reaction → Option Message
  | .deliver m => some m
  | _ => none

namespace Intake

/-- What the listener is told of a ruling. -/
def told (i : Intake) : Ruling → List Notice
  | .started h =>
    .serviceStarted h.service h.session h.version ::
      if h.service = .rpc then [.sessionStarted h.session h.version] else []
  | .ended h => if i.believes h then [.serviceEnded h.service h.session (i.versionOf h)] else []

/-- What a control frame calls for. -/
def answer (i : Intake) (h : Header) : Reaction :=
  match h.controlType? with
  | some .startService => .grant h
  | some .startServiceAck => .tell (i.told (.started h))
  | some .startServiceNack => .tell [.startRejected h.service h.session h.version]
  | some .endService | some .endServiceAck => .tell (i.told (.ended h))
  | some .heartbeatAck => .tell [.heartbeatAck h.session]
  | some .navAck => .tell (if h.service = .nav then [.navAck h.message] else [])
  | some .endServiceNack | some .heartbeat | none => .tell []

/-- What a frame of a message calls for, by what the reassembly makes of it. -/
def dataReaction (h : Header) : Except Fault (Option Message) → Reaction
  | .ok (some m) => .deliver m
  | .ok none => .tell []
  | .error fault => .tell [.fault (.reassembling h) fault]

/-- **What an arrival calls for.** -/
def reaction (i : Intake) : Arrival → Reaction
  | .ok f =>
    if f.header.type = .control then i.answer f.header
    else dataReaction f.header (i.reassembly.accept f).2
  | .error fault => .tell [.fault .parsing (.header fault)]

/-- **What the listener is told** is the fault of what arrives, or that of the reassembly; or it is neither a fault
    nor a message. -/
theorem cases_of_tell {i : Intake} {a : Arrival} {notices : List Notice} (h : i.reaction a = .tell notices)
    {n : Notice} (hn : n ∈ notices) :
    (∃ fault, n = .fault .parsing (.header fault))
      ∨ (∃ f fault, (i.reassembly.accept f).2 = .error fault ∧ n = .fault (.reassembling f.header) fault)
      ∨ (∀ context fault, n ≠ .fault context fault) ∧ n.message? = none := by
  have hanswer {header : Header} (h : i.answer header = .tell notices) :
      (∀ context fault, n ≠ .fault context fault) ∧ n.message? = none := by
    unfold answer told at h
    split at h <;> cases h <;> grind [Notice.message?]
  cases a with
  | error fault =>
    cases h
    exact .inl ⟨fault, List.mem_singleton.mp hn⟩
  | ok f =>
    simp only [reaction] at h
    split at h
    · exact .inr (.inr (hanswer h))
    · unfold dataReaction at h
      split at h <;> cases h
      · cases hn
      · rename_i fault hfault
        exact .inr (.inl ⟨f, fault, hfault, List.mem_singleton.mp hn⟩)

/-- What the listener is told is no message. -/
theorem message?_of_tell {i : Intake} {a : Arrival} {notices : List Notice} (h : i.reaction a = .tell notices) :
    ∀ n ∈ notices, n.message? = none := by
  intro n hn
  rcases cases_of_tell h hn with ⟨_, rfl⟩ | ⟨_, _, -, rfl⟩ | ⟨-, hnone⟩
  · rfl
  · rfl
  · exact hnone

/-- What arrivals call for, one after the other. -/
def reactions (i : Intake) : List Arrival → List Reaction
  | [] => []
  | a :: arrivals => i.reaction a :: (i.after a).reactions arrivals

theorem reactions_append (i : Intake) (first second : List Arrival) :
    i.reactions (first ++ second) = i.reactions first ++ (i.afterAll first).reactions second := by
  induction first generalizing i with
  | nil => rfl
  | cons a first ih => simp [reactions, ih]

/-- Every reaction is that to an arrival, which comes after some others. -/
theorem exists_of_mem_reactions {i : Intake} {arrivals : List Arrival} {r : Reaction}
    (h : r ∈ i.reactions arrivals) :
    ∃ before a later, arrivals = before ++ a :: later ∧ (i.afterAll before).reaction a = r := by
  induction arrivals generalizing i with
  | nil => cases h
  | cons a arrivals ih =>
    rcases List.mem_cons.mp h with rfl | h
    · exact ⟨[], a, arrivals, rfl, rfl⟩
    · obtain ⟨before, b, later, rfl, hr⟩ := ih h
      exact ⟨a :: before, b, later, rfl, hr⟩

end Intake

/-! ## Endpoints -/

variable {σ : Type} {env : Environment σ}

/-- Errands do not tell about the receive path. -/
theorem Outbox.Errands.heard {o o' : Outbox} (errands : Errands env o o') : o'.heard = o.heard := by
  induction errands with
  | refl => rfl
  | tail _ errand ih =>
    rw [← ih]
    cases errand with
    | step step => exact Steps.heard (.single step)
    | accept x => rfl
    | enlist => rfl
    | clear => simp [Outbox.heard, Outbox.clear, List.filterMap_map, Function.comp_def, Entry.heard?, Entry.notice?]

theorem Outbox.Works.heard {o o' : Outbox} (works : Works env o o') : o'.heard = o.heard :=
  have steps : Steps env Frame.OfControl o o' := works.steps
  steps.heard

/-- The messages that the listener got, in order. -/
def Link.messages (l : Link σ) : List Message := l.notices.filterMap Notice.message?

theorem Link.messages_eq (l : Link σ) : l.messages = l.outbox.heard.filterMap Notice.message? := by
  rw [Link.heard_eq, filterMap_message?_filter]
  rfl

namespace Endpoint

variable {e e' : Endpoint σ}

/-- What decides what the endpoint makes of an arrival. -/
def intake (e : Endpoint σ) : Intake where
  sessions := e.link.sessions
  reassembly := e.reassembly
  version := e.version

/-- The endpoint with another intake. -/
def withIntake (e : Endpoint σ) (i : Intake) : Endpoint σ :=
  { e with
    link := { e.link with sessions := i.sessions }
    reassembly := i.reassembly
    version := i.version }

@[simp] theorem intake_withIntake (e : Endpoint σ) (i : Intake) : (e.withIntake i).intake = i := rfl

@[simp] theorem withIntake_intake (e : Endpoint σ) : e.withIntake e.intake = e := rfl

/-- Does what an arrival calls for. -/
def carryOut (env : Environment σ) (e : Endpoint σ) : Reaction → Endpoint σ
  | .tell notices => notices.foldl tell e
  | .deliver m => e.deliver env m
  | .grant h => e.acknowledge env h

theorem noteStarted_eq (e : Endpoint σ) (h : Header) :
    e.noteStarted h
      = (e.withIntake (e.intake.follow (.started h))).carryOut env (.tell (e.intake.told (.started h))) := by
  by_cases hrpc : h.service = .rpc <;>
    simp [noteStarted, carryOut, Intake.told, Intake.follow, withIntake, intake, hrpc]

theorem endsService_eq (e : Endpoint σ) (h : Header) : e.endsService h = e.intake.believes h := rfl

theorem noteEnded_eq (e : Endpoint σ) (h : Header) :
    e.noteEnded h
      = (e.withIntake (e.intake.follow (.ended h))).carryOut env (.tell (e.intake.told (.ended h))) := by
  simp only [noteEnded, endsService_eq]
  by_cases hbelieved : e.intake.believes h = true
  · simp only [hbelieved, if_true, Intake.follow, Intake.told]
    -- telling does not depend on what is forgotten
    split
    · rename_i hclosed
      simp only [show (e.intake.sessions.stop h.session h.service).2 = true from hclosed, if_true]
      rfl
    · rename_i hopen
      simp only [show ¬ (e.intake.sessions.stop h.session h.service).2 = true from hopen]
      rfl
  · simp only [hbelieved, Intake.follow, Intake.told]
    rfl

/-- **A control frame changes the intake, and then what it calls for is done.** -/
theorem onControl_eq (e : Endpoint σ) (h : Header) :
    e.onControl env h = (e.withIntake (e.intake.afterControl h)).carryOut env (e.intake.answer h) := by
  unfold onControl Intake.answer Intake.afterControl Header.ruling?
  cases h.controlType? with
  | none => rfl
  | some type =>
    cases type with
    | startServiceAck => exact noteStarted_eq e h
    | endService | endServiceAck => exact noteEnded_eq e h
    | navAck => by_cases hnav : h.service = .nav <;> simp [hnav, carryOut]
    | startService | startServiceNack | endServiceNack | heartbeat | heartbeatAck => rfl

/-- **An arrival changes the intake, and then what it calls for is done.** -/
theorem onArrival_eq (e : Endpoint σ) (a : Arrival) :
    e.onArrival env a = (e.withIntake (e.intake.after a)).carryOut env (e.intake.reaction a) := by
  cases a with
  | error fault => rfl
  | ok f =>
    simp only [onArrival, onFrame, Intake.after, Intake.reaction]
    by_cases hcontrol : f.header.type = .control
    · simp only [if_pos hcontrol]
      exact onControl_eq e f.header
    · simp only [if_neg hcontrol]
      show (match (e.intake.reassembly.accept f).2 with
        | .ok (some m) => _
        | .ok none => _
        | .error fault => _) = _
      cases (e.intake.reassembly.accept f).2 with
      | error fault => rfl
      | ok m? => cases m? <;> rfl

/-! ### Carrying out -/

theorem intake_deliver (e : Endpoint σ) (m : Message) : (e.deliver env m).intake = e.intake := by
  unfold deliver
  dsimp only
  split <;> split <;> rfl

theorem intake_acknowledge (hl : e.link.outbox.Locked) (h : Header) :
    (e.acknowledge env h).intake = e.intake := by
  have hquiet : e.Quiet (e.acknowledge env h) := quiet_acknowledge hl h
  have hsessions : (e.acknowledge env h).link.sessions = e.link.sessions := hquiet.outbox.sessions
  unfold intake
  rw [hsessions, hquiet.version, acknowledge_reassembly]

/-- **Whatever the listener and the transport do, the intake stays as it is.** -/
theorem intake_carryOut (hl : e.link.outbox.Locked) (r : Reaction) : (e.carryOut env r).intake = e.intake := by
  cases r with
  | deliver m => exact intake_deliver e m
  | grant h => exact intake_acknowledge hl h
  | tell notices =>
    show (notices.foldl tell e).intake = e.intake
    clear hl
    induction notices generalizing e with
    | nil => rfl
    | cons n notices ih => exact ih

theorem locked_withIntake (hl : e.link.outbox.Locked) (i : Intake) : (e.withIntake i).link.outbox.Locked :=
  Outbox.Locked.setSessions hl i.sessions

/-- **The intake after an arrival** depends on nothing but the intake before. -/
theorem intake_onArrival (env : Environment σ) (hl : e.link.outbox.Locked) (a : Arrival) :
    (e.onArrival env a).intake = e.intake.after a := by
  rw [onArrival_eq, intake_carryOut (locked_withIntake hl _), intake_withIntake]

/-! ### Messages -/

theorem messages_tell (e : Endpoint σ) (n : Notice) :
    (e.tell n).link.messages = e.link.messages ++ n.message?.toList := by
  unfold Link.messages
  rw [notices_tell, List.filterMap_append]
  cases n <;> rfl

/-- What is no message brings none. -/
theorem messages_foldl_tell {notices : List Notice} (hnone : ∀ n ∈ notices, n.message? = none) (e : Endpoint σ) :
    (notices.foldl tell e).link.messages = e.link.messages := by
  refine foldl_keeps (f := fun e => e.link.messages) ?_ e
  intro n hn e
  rw [messages_tell, hnone n hn]
  exact List.append_nil _

/-- **A message is given to the listener if it is called for**, and only then. -/
theorem messages_onArrival (hl : e.link.outbox.Locked) (a : Arrival) :
    (e.onArrival env a).link.messages = e.link.messages ++ (e.intake.reaction a).message?.toList := by
  have hl' := locked_withIntake hl (e.intake.after a)
  have hsame : (e.withIntake (e.intake.after a)).link.messages = e.link.messages := rfl
  rw [onArrival_eq, ← hsame]
  cases hr : e.intake.reaction a with
  | tell notices => exact (messages_foldl_tell (Intake.message?_of_tell hr) _).trans (List.append_nil _).symm
  | deliver m =>
    rw [Link.messages_eq, Link.messages_eq]
    show (Outbox.heard (deliver env _ m).link.outbox).filterMap Notice.message? = _
    rw [deliver_heard, List.filterMap_append]
    rfl
  | grant h =>
    rw [Link.messages_eq, Link.messages_eq]
    show (Outbox.heard (acknowledge env _ h).link.outbox).filterMap Notice.message? = _
    rw [acknowledge_heard hl']
    exact (List.append_nil _).symm

/-! ## Histories -/

/-- **A move deals with what arrives, or it has no part in receiving**: the intake stays as it is, and no message is
    given to the listener. -/
theorem Move.apart_or_arrive {new : List Arrival} (move : Move env e new e') (hl : e.link.outbox.Locked) :
    (new = [] ∧ e'.intake = e.intake ∧ e'.link.messages = e.link.messages)
      ∨ ∃ a, new = [a] ∧ e' = e.onArrival env a := by
  have hmessages {l : Link σ} (hheard : l.outbox.heard = e.link.outbox.heard) :
      l.messages = e.link.messages := by
    rw [Link.messages_eq, Link.messages_eq, hheard]
  cases move with
  | call a own =>
    refine Or.inl ⟨rfl, ?_, hmessages (errands_perform hl own).heard⟩
    have hsessions : (e.perform env a).link.sessions = e.link.sessions :=
      (quiet_perform hl own).outbox.sessions
    obtain ⟨link, hlink⟩ := exists_link_perform env e own
    rw [hlink] at hsessions ⊢
    simpa [intake] using hsessions
  | feed d => exact Or.inl ⟨rfl, rfl, rfl⟩
  | arrive a => exact Or.inr ⟨a, rfl, rfl⟩
  | work =>
    have hworks := Link.work_works env e.link
    have hsessions : (e.link.work env).sessions = e.link.sessions := (Outbox.Works.quiet hworks).sessions
    exact Or.inl ⟨rfl, by simp [intake, hsessions], hmessages (Outbox.Works.heard hworks)⟩
  | pass ms =>
    have hworks := Link.wakeDue_works env { e.link with now := e.link.now + ms }
    have hsessions : (e.link.pass ms).sessions = e.link.sessions := (Outbox.Works.quiet hworks).sessions
    exact Or.inl ⟨rfl, by simp [intake, hsessions], hmessages (Outbox.Works.heard hworks)⟩

/-- **The intake is what the arrivals have made of it.** -/
theorem History.intake {past : List Arrival} (history : History env e past e') (hl : e.link.outbox.Locked) :
    e'.intake = e.intake.afterAll past := by
  induction history with
  | refl => rfl
  | tail before move ih =>
    have hlocked := History.locked before hl
    rw [Intake.afterAll_append, ← ih]
    rcases move.apart_or_arrive hlocked with ⟨rfl, hintake, -⟩ | ⟨a, rfl, rfl⟩
    · exact hintake
    · exact intake_onArrival env hlocked a

/-- **The listener gets the messages that the arrivals call for**, and no other. -/
theorem History.messages {past : List Arrival} (history : History env e past e') (hl : e.link.outbox.Locked) :
    e'.link.messages = e.link.messages ++ (e.intake.reactions past).filterMap Reaction.message? := by
  induction history with
  | refl => exact (List.append_nil _).symm
  | tail before move ih =>
    have hlocked := History.locked before hl
    rw [Intake.reactions_append, List.filterMap_append, ← List.append_assoc, ← ih, ← History.intake before hl]
    rcases move.apart_or_arrive hlocked with ⟨rfl, -, hmessages⟩ | ⟨a, rfl, rfl⟩
    · exact hmessages.trans (List.append_nil _).symm
    · rw [messages_onArrival hlocked]
      rfl

end Endpoint

end HeadLink
