import HeadLink.Proofs.Drafts
import HeadLink.Proofs.Feeding

/-!
# Failures of collaborators

The listener may refuse a message, and the transport may fail to carry a frame that grants a request. Whatever they
do, the endpoint goes on with the bytes that come, as if nothing had happened: it gives out the same messages, writes
the same frames, and ends with the same sessions and the same messages under way. The failures show in the faults that
the listener is told of, one for each, right after what has failed.

Two runs over the same bytes call for the same reactions, since the intake does not know what the collaborators have
answered. They differ in the answers, and these show in the entries of a reaction (`Reaction.entries`) only where the
collaborators are blamed.

## Contents
- **Blame.** `Notice.blamesCollaborator`; what is left of a record without the answers
  (`Environment.filterMap_record`).
- **Indifference.** `failures_do_not_disturb`.
-/

namespace HeadLink

/-! ## Blame -/

/-- Whether a notice reports that the listener or the transport has failed. -/
def Notice.blamesCollaborator : Notice → Bool
  | .fault _ (.delivery _) | .fault _ (.transport _) => true
  | _ => false

/-- A frame is refused because of what it says. -/
theorem Reassembly.blames_of_accept {r : Reassembly} {f : Frame} {fault : Fault}
    (h : (r.accept f).2 = .error fault) (context : Context) :
    (Notice.fault context fault).blamesCollaborator = false := by
  have houtcome {header : Header} {payload : Bytes} (h : outcome header payload = .error fault) :
      (Notice.fault context fault).blamesCollaborator = false := by
    unfold outcome at h
    cases hread : Message.ofPayload? header payload with
    | ok m =>
      rw [hread] at h
      cases h
    | error fault' =>
      rw [hread] at h
      cases h
      rfl
  have hrule := r.rule_accept f
  generalize (r.accept f).1.draft f.header.key = after at hrule
  generalize r.draft f.header.key = before at hrule
  generalize (r.accept f).2 = result at hrule h
  cases hrule with
  | single | completes => exact houtcome h
  | opens | adds => cases h
  | control | short | large | full | orphan | overflows =>
    cases h
    rfl

/-- **What the listener is told of an arrival blames no collaborator.** -/
theorem Intake.blames_of_tell {i : Intake} {a : Arrival} {notices : List Notice} (h : i.reaction a = .tell notices) :
    ∀ n ∈ notices, n.blamesCollaborator = false := by
  intro n hn
  rcases cases_of_tell h hn with ⟨_, rfl⟩ | ⟨f, _, hfault, rfl⟩ | ⟨hother, -⟩
  · rfl
  · exact Reassembly.blames_of_accept hfault (.reassembling f.header)
  · cases n with
    | fault context cause => exact absurd rfl (hother context cause)
    | _ => rfl

/-- What a part of the entries shows that does not depend on the answers of the collaborators. -/
theorem Environment.filterMap_record {σ α : Type} {part : Entry → Option α}
    (hpart : ∀ (r : Reaction) failure, (r.entries failure).filterMap part = (r.entries none).filterMap part)
    (env : Environment σ) (p : Partners σ) (reactions : List Reaction) :
    (env.record p reactions).filterMap part = reactions.flatMap fun r => (r.entries none).filterMap part := by
  induction reactions generalizing p with
  | nil => rfl
  | cons r reactions ih => rw [record, List.filterMap_append, hpart, ih, List.flatMap_cons]

namespace Reaction

variable (r : Reaction) (failure : Option (List String))

/-- The same frames are handed over, whether they are carried or not. -/
theorem filterMap_frame_entries : (r.entries failure).filterMap (fun e => e.written?.map Written.frame)
    = (r.entries none).filterMap fun e => e.written?.map Written.frame := by
  cases r with
  | tell notices => rfl
  | deliver m | grant h => cases failure <;> rfl

/-- The same notices are given, apart from those that blame a collaborator. -/
theorem filterMap_notice_entries :
    (r.entries failure).filterMap (fun e => e.notice?.filter fun n => !n.blamesCollaborator)
      = (r.entries none).filterMap fun e => e.notice?.filter fun n => !n.blamesCollaborator := by
  cases r with
  | tell notices => rfl
  | deliver m | grant h => cases failure <;> rfl

end Reaction

/-! ## Indifference -/

/-- **Failures of the collaborators do not disturb an endpoint that has nothing to send.** Let it be fed with the same
    bytes twice, in whatever chunks, by two listeners and transports that fail in different places. Both times the
    same frames are handed to the transport, and apart from the faults that blame the collaborators the listener is
    told the same; the endpoint ends with the same sessions, the same version, the same deframer and the same messages
    under way.

    The two journals record the same reactions. For each message that the listener refuses there is one fault, right
    after the message and before the notice that the application is unregistered, if the message says so; for each
    request that cannot be granted there is one fault, right after the frame (`Reaction.entries`). What else the
    listener is told is no message, and blames nobody. -/
theorem failures_do_not_disturb {σ : Type} {env env₁ env₂ : Environment σ} {carrier : σ}
    {e₀ e e₁ e₂ : Endpoint σ} {before : List Action} {chunks₁ chunks₂ : List Bytes}
    (hopen : Endpoint.open? env carrier = .ok e₀) (reached : Endpoint.Span env e₀ before e)
    (hvacant : e.link.IsVacant) (hbytes : chunks₁.flatten = chunks₂.flatten)
    (span₁ : Endpoint.Span env₁ e (chunks₁.map .receive) e₁)
    (span₂ : Endpoint.Span env₂ e (chunks₂.map .receive) e₂) :
    e₁.link.handed.map Written.frame = e₂.link.handed.map Written.frame
      ∧ (e₁.link.notices.filter fun n => !n.blamesCollaborator)
        = (e₂.link.notices.filter fun n => !n.blamesCollaborator)
      ∧ e₁.link.sessions = e₂.link.sessions ∧ e₁.version = e₂.version ∧ e₁.deframer = e₂.deframer
      ∧ e₁.reassembly = e₂.reassembly
      ∧ ∃ reactions,
        (∀ notices, .tell notices ∈ reactions → ∀ n ∈ notices, n.message? = none ∧ n.blamesCollaborator = false)
          ∧ e₁.link.journal.toList = e.link.journal.toList ++ env₁.record e.partners reactions
          ∧ e₂.link.journal.toList = e.link.journal.toList ++ env₂.record e.partners reactions := by
  obtain ⟨past, history⟩ := reached.history
  have hfree := history.free hopen hvacant
  have hsound := reached.sound (Endpoint.sound_of_open? hopen)
  have htakes₁ := span₁.takes hfree hsound
  have htakes₂ := span₂.takes hfree hsound
  rw [hbytes] at htakes₁
  have hintake : e₁.intake = e₂.intake := htakes₁.hears.intake.trans htakes₂.hears.intake.symm
  -- what does not depend on the answers is the same of both journals
  have hpart {α : Type} {part : Entry → Option α}
      (h : ∀ (r : Reaction) failure, (r.entries failure).filterMap part = (r.entries none).filterMap part) :
      e₁.link.journal.toList.filterMap part = e₂.link.journal.toList.filterMap part := by
    rw [htakes₁.hears.journal, htakes₂.hears.journal, List.filterMap_append, List.filterMap_append,
      Environment.filterMap_record h, Environment.filterMap_record h]
  refine ⟨?_, ?_, congrArg Intake.sessions hintake, congrArg Intake.version hintake,
    htakes₁.deframer.trans htakes₂.deframer.symm, congrArg Intake.reassembly hintake, _, ?_,
    htakes₁.hears.journal, htakes₂.hears.journal⟩
  · unfold Link.handed
    rw [List.map_filterMap, List.map_filterMap]
    exact hpart Reaction.filterMap_frame_entries
  · unfold Link.notices
    rw [List.filter_filterMap, List.filter_filterMap]
    exact hpart Reaction.filterMap_notice_entries
  · intro notices hmem n hn
    obtain ⟨earlier, a, later, -, hreaction⟩ := Intake.exists_of_mem_reactions hmem
    exact ⟨Intake.message?_of_tell hreaction n hn, Intake.blames_of_tell hreaction n hn⟩

/-- A listener that takes no message, and a transport that carries no frame. -/
def sullen : Environment Nat where
  settings := contention.settings
  transport := .numbered 0 fun _ => some ["closed"]
  refusal := fun _ => some ["busy"]

/-- A listener and a transport that do whatever they are asked, the transport in its own time. -/
def obliging : Environment Nat where
  settings := contention.settings
  transport := .numbered 2 fun _ => none

/-- The peer asks for a service and confirms that the application is unregistered. -/
def farewell : Bytes :=
  [0x10, 0x0B, 0x01, 2, 0, 0, 0, 0,
    0x21, 0x07, 0, 1, 0, 0, 0, 12, 0, 0, 0, 9, 0x10, 0, 0, 2, 0, 0, 0, 0, 0, 0, 0, 0]

/-- Where everything fails, two more faults are told, each right after what has failed. -/
theorem failures_do_not_disturb_farewell :
    ∃ e₀, Endpoint.open? contention 0 = .ok e₀ ∧
      let e := (e₀.run contention exchange).1
      let e₁ := e.receive sullen farewell
      let e₂ := (e.receive obliging (farewell.take 10)).receive obliging (farewell.drop 10)
      let m : Message :=
        { version := 2, service := .rpc, session := 1, body := { rpcType := .response, functionId := 2, data := [] } }
      e₁.link.notices.drop e.link.notices.length
          = [.fault (.acknowledging .nav 2) (.transport (.failed ["closed"])), .messageReceived m,
            .fault .delivering (.delivery ["busy"]), .appUnregistered]
        ∧ e₂.link.notices.drop e.link.notices.length = [.messageReceived m, .appUnregistered]
        ∧ e₁.link.handed.map Written.frame = e₂.link.handed.map Written.frame
        ∧ (e₁.link.notices.filter fun n => !n.blamesCollaborator)
          = (e₂.link.notices.filter fun n => !n.blamesCollaborator)
        ∧ e₁.link.sessions = e₂.link.sessions ∧ e₁.reassembly = e₂.reassembly := by
  have hopen : Endpoint.open? contention 0 = .ok _ := rfl
  have hbytes : [farewell].flatten = [farewell.take 10, farewell.drop 10].flatten := by decide
  obtain ⟨hframes, hnotices, hsessions, -, -, hreassembly, -⟩ := failures_do_not_disturb hopen
    (Endpoint.span_run exchange _) (by decide +kernel) hbytes
    (Endpoint.span_foldl_receive sullen [farewell] _)
    (Endpoint.span_foldl_receive obliging [farewell.take 10, farewell.drop 10] _)
  exact ⟨_, rfl, by decide +kernel, by decide +kernel, hframes, hnotices, hsessions, hreassembly⟩

end HeadLink
