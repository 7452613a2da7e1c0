import HeadLink.Proofs.Drafts
import HeadLink.Proofs.Vacancy

/-!
# Sessions do not influence each other

The sessions of an endpoint share one table of sessions, one table of messages under way and one version. Still, what
an endpoint makes of the frames of a session is what another endpoint makes of them that gets no others: the listener
is told the same, the same frames are written, and in the end the session and its messages are the same.

There is one thing that sessions share in earnest, the room for messages under way. Thus no first frame of the session
may be refused for lack of room. And what the listener and the transport do may depend on what they were asked before;
the two endpoints are compared under the same answers to the frames of the session.

The two intakes agree on the session, and the second has nothing under way of any other (`Intake.Alike`). Arrivals of
other sessions keep that (`Intake.Alike.after_of_not`), and arrivals of the session call for the same
(`Intake.Alike.after_of_isOf`), since there is always more room in the second intake than in the first.

## Contents
- **Responses.** `Endpoint.responses`: what becomes of each arrival, entry by entry.
- **Alike.** `Reassembly.Alike` and `Intake.Alike`, and how arrivals keep them.
- **Isolation.** `sessions_isolated`.
-/

namespace HeadLink

/-- What a control frame says of a service it says with its own header. -/
theorem Header.ruling?_eq (h : Header) :
    h.ruling? = none ∨ h.ruling? = some (.started h) ∨ h.ruling? = some (.ended h) := by
  unfold ruling?
  split <;> simp

/-! ## Responses -/

/-- Whether an arrival is a frame of the session. -/
def Arrival.isOf (session : UInt8) : Arrival → Bool
  | .ok f => f.header.session = session
  | .error _ => false

/-- What an endpoint does on an arrival. -/
@[ext] structure Response where
  arrival : Arrival
  /-- How the collaborator fails that the arrival makes the endpoint call on. -/
  failure : Option (List String)
  /-- What is noted: what the listener is told, and what is handed to the transport. -/
  entries : List Entry

namespace Endpoint

variable {σ : Type} (env : Environment σ)

/-- What an endpoint does on an arrival. -/
def response (e : Endpoint σ) (a : Arrival) : Response where
  arrival := a
  failure := (env.answer e.partners (e.intake.reaction a)).2
  entries := (e.onArrival env a).link.journal.toList.drop e.link.journal.size

/-- What an endpoint does on arrivals, one after the other. -/
def responses (e : Endpoint σ) : List Arrival → List Response
  | [] => []
  | a :: arrivals => e.response env a :: (e.onArrival env a).responses arrivals

variable {env}

/-- What an endpoint does that has nothing to send is to carry out a reaction. -/
theorem response_eq {e : Endpoint σ} (h : e.link.Free) (a : Arrival) :
    (e.response env a).entries = (e.intake.reaction a).entries (e.response env a).failure := by
  have hjournal := (hears_onArrival env h a).journal
  have hone : env.record e.partners (e.intake.reactions [a])
      = (e.intake.reaction a).entries (env.answer e.partners (e.intake.reaction a)).2 := List.append_nil _
  unfold response
  dsimp only
  rw [hjournal, hone, ← Array.length_toList, List.drop_left]

end Endpoint

/-! ## Alike -/

/-- Two reassemblies have the same messages of a session under way, and the second one no other. -/
structure Reassembly.Alike (session : UInt8) (r r' : Reassembly) : Prop where
  own : ∀ k : MessageKey, k.session = session → r'.opened.get? k = r.opened.get? k
  other : ∀ k : MessageKey, k.session ≠ session → r'.opened.get? k = none
  maxMessageSize : r'.maxMessageSize = r.maxMessageSize
  maxOpen : r'.maxOpen = r.maxOpen

namespace Reassembly.Alike

variable {session : UInt8} {r r' : Reassembly} {f : Frame}

/-- There is more room in the second one. -/
theorem openCount_le (h : r.Alike session r') : r'.openCount ≤ r.openCount := by
  have hsub : r'.opened.keys ⊆ r.opened.keys := by
    intro k hk
    rw [Table.mem_keys] at hk ⊢
    by_cases hown : k.session = session
    · rwa [← h.own k hown]
    · rw [h.other k hown] at hk
      cases hk
  have hlength := (List.subperm_of_subset r'.opened.nodup hsub).length_le
  simpa [openCount, Table.size, Table.keys] using hlength

theorem insert (h : r.Alike session r') {k : MessageKey} (hk : k.session = session) (part : Partial) :
    ({ r with opened := r.opened.insert k part } : Reassembly).Alike session
      { r' with opened := r'.opened.insert k part } := by
  refine ⟨fun k' hk' => ?_, fun k' hk' => ?_, h.maxMessageSize, h.maxOpen⟩
  · rw [Table.get?_insert, Table.get?_insert, h.own k' hk']
  · have hne : k' ≠ k := by
      rintro rfl
      exact hk' hk
    rw [Table.get?_insert, if_neg hne]
    exact h.other k' hk'

theorem erase (h : r.Alike session r') (k : MessageKey) :
    ({ r with opened := r.opened.erase k } : Reassembly).Alike session
      { r' with opened := r'.opened.erase k } := by
  refine ⟨fun k' hk' => ?_, fun k' hk' => ?_, h.maxMessageSize, h.maxOpen⟩
  · rw [Table.get?_erase, Table.get?_erase, h.own k' hk']
  · rw [Table.get?_erase]
    split
    · rfl
    · exact h.other k' hk'

/-- **First frames of the session are taken alike**, if there is room for them in the first reassembly. -/
theorem acceptFirst (h : r.Alike session r') (hown : f.header.session = session)
    (hroom : (r.acceptFirst f).2 ≠ .error (.tooManyOpen f.header r.maxOpen)) :
    (r'.acceptFirst f).2 = (r.acceptFirst f).2 ∧ (r.acceptFirst f).1.Alike session (r'.acceptFirst f).1 := by
  have hcontains : r'.opened.contains f.header.key = r.opened.contains f.header.key := by
    rw [Table.contains_eq_isSome_get?, Table.contains_eq_isSome_get?, h.own _ hown]
  have hcount := h.openCount_le
  obtain ⟨limit, room, opened⟩ := r'
  obtain rfl : limit = r.maxMessageSize := h.maxMessageSize
  obtain rfl : room = r.maxOpen := h.maxOpen
  unfold Reassembly.acceptFirst at hroom ⊢
  rw [hcontains]
  cases hlength : announcedLength f.header f.payload with
  | none => exact ⟨rfl, h⟩
  | some announced =>
    rw [hlength] at hroom
    dsimp only at hroom ⊢
    by_cases hlarge : r.maxMessageSize < announced
    · rw [if_pos hlarge, if_pos hlarge]
      exact ⟨rfl, h⟩
    · rw [if_neg hlarge] at hroom
      rw [if_neg hlarge, if_neg hlarge]
      have hfull : ¬ (r.maxOpen ≤ r.openCount ∧ ¬ r.opened.contains f.header.key = true) := by
        intro hfull
        rw [if_pos hfull] at hroom
        exact hroom rfl
      rw [if_neg hfull, if_neg fun hfull' => hfull ⟨hfull'.1.trans hcount, hfull'.2⟩]
      exact ⟨rfl, h.insert hown _⟩

/-- **So are consecutive frames**, with nothing to be said about room. -/
theorem acceptConsecutive (h : r.Alike session r') (hown : f.header.session = session) :
    (r'.acceptConsecutive f).2 = (r.acceptConsecutive f).2
      ∧ (r.acceptConsecutive f).1.Alike session (r'.acceptConsecutive f).1 := by
  have hsame := h.own f.header.key hown
  obtain ⟨limit, room, opened⟩ := r'
  obtain rfl : limit = r.maxMessageSize := h.maxMessageSize
  obtain rfl : room = r.maxOpen := h.maxOpen
  unfold Reassembly.acceptConsecutive
  rw [hsame]
  cases r.opened.get? f.header.key with
  | none => exact ⟨rfl, h⟩
  | some part =>
    dsimp only
    split
    · exact ⟨rfl, h.erase _⟩
    · split
      · exact ⟨rfl, h.erase _⟩
      · exact ⟨rfl, (h.erase f.header.key).insert hown _⟩

/-- **Frames of the session are taken alike.** -/
theorem accept_of_isOf (h : r.Alike session r') (hown : f.header.session = session)
    (hroom : (r.accept f).2 ≠ .error (.reassembly (.tooManyOpen f.header r.maxOpen))) :
    (r'.accept f).2 = (r.accept f).2 ∧ (r.accept f).1.Alike session (r'.accept f).1 := by
  cases htype : f.header.type with
  | single | control =>
    unfold accept
    rw [htype]
    exact ⟨rfl, h⟩
  | first =>
    rw [accept_of_first htype] at hroom
    rw [accept_of_first htype, accept_of_first htype]
    obtain ⟨hresult, halike⟩ := h.acceptFirst hown (f := f) fun hfull => hroom (by rw [hfull]; rfl)
    exact ⟨by rw [hresult], halike⟩
  | consecutive =>
    rw [accept_of_consecutive htype, accept_of_consecutive htype]
    exact h.acceptConsecutive hown

theorem discardSession (h : r.Alike session r') (discarded : UInt8) :
    (r.discardSession discarded).Alike session (r'.discardSession discarded) := by
  refine ⟨fun k hk => ?_, fun k hk => ?_, h.maxMessageSize, h.maxOpen⟩
  · rw [get?_discardSession, get?_discardSession, h.own k hk]
  · rw [get?_discardSession]
    split
    · rfl
    · exact h.other k hk

/-- What is discarded of other sessions is nothing to the second one. -/
theorem discardSession_of_not (h : r.Alike session r') {discarded : UInt8} (hother : discarded ≠ session) :
    (r.discardSession discarded).Alike session r' := by
  refine ⟨fun k hk => ?_, h.other, h.maxMessageSize, h.maxOpen⟩
  have hkeep : k.session ≠ discarded := by
    rintro rfl
    exact hother hk
  rw [get?_discardSession, if_neg hkeep, h.own k hk]

/-- Frames of other sessions keep two reassemblies alike, although only the first one gets them. -/
theorem accept_of_not (h : r.Alike session r') (hother : f.header.session ≠ session) :
    (r.accept f).1.Alike session r' := by
  obtain ⟨hsize, hopen⟩ := limits_accept r f
  refine ⟨fun k hk => ?_, h.other, h.maxMessageSize.trans hsize.symm, h.maxOpen.trans hopen.symm⟩
  have hkey : f.header.key ≠ k := by
    rintro rfl
    exact hother hk
  rw [get?_accept_of_ne r hkey, h.own k hk]

end Reassembly.Alike

/-- Two intakes know the same of a session, and the second one has no message of another session under way. -/
structure Intake.Alike (session : UInt8) (i i' : Intake) : Prop where
  known : i'.sessions.get? session = i.sessions.get? session
  reassembly : i.reassembly.Alike session i'.reassembly

namespace Intake.Alike

variable {session : UInt8} {i i' : Intake}

theorem version? (h : i.Alike session i') : i'.sessions.version? session = i.sessions.version? session := by
  unfold Sessions.version?
  rw [h.known]

theorem token? (h : i.Alike session i') (service : ServiceType) :
    i'.sessions.token? session service = i.sessions.token? session service := by
  unfold Sessions.token?
  rw [h.known]

/-- A frame that ends a service of the session is believed by both or by neither. -/
theorem believes (h : i.Alike session i') {header : Header} (hown : header.session = session) :
    i'.believes header = i.believes header ∧ i'.versionOf header = i.versionOf header := by
  have hversion : i'.versionOf header = i.versionOf header := by
    unfold versionOf
    rw [hown, h.version?]
  refine ⟨?_, hversion⟩
  unfold Intake.believes
  rw [hversion, hown, h.token?]

/-- Whether a session closes with a service depends on the session alone. -/
theorem stop (h : i.Alike session i') (service : ServiceType) :
    (i'.sessions.stop session service).2 = (i.sessions.stop session service).2
      ∧ (i'.sessions.stop session service).1.get? session = (i.sessions.stop session service).1.get? session := by
  unfold Sessions.stop
  rw [h.known]
  cases hstate : i.sessions.get? session with
  | none => exact ⟨rfl, h.known.trans hstate |>.trans hstate.symm⟩
  | some state =>
    dsimp only
    split
    · exact ⟨rfl, by rw [Table.get?_erase, Table.get?_erase, if_pos rfl, if_pos rfl]⟩
    · exact ⟨rfl, by rw [Table.get?_insert, Table.get?_insert, if_pos rfl, if_pos rfl]⟩

/-- **Rulings on the session are followed alike.** -/
theorem follow (h : i.Alike session i') {header : Header} (hown : header.session = session) :
    (i.follow (.started header)).Alike session (i'.follow (.started header))
      ∧ (i.follow (.ended header)).Alike session (i'.follow (.ended header)) := by
  subst hown
  constructor
  · refine ⟨?_, h.reassembly⟩
    unfold Intake.follow Sessions.start
    dsimp only
    rw [Table.get?_insert, Table.get?_insert, if_pos rfl, if_pos rfl, h.known]
  · obtain ⟨hcloses, hsession⟩ := h.stop header.service
    unfold Intake.follow
    dsimp only
    rw [(h.believes rfl).1]
    split
    · refine ⟨hsession, ?_⟩
      dsimp only
      rw [hcloses]
      split
      · exact h.reassembly.discardSession _
      · exact h.reassembly
    · exact h

/-- Rulings on other sessions keep two intakes alike, although only the first one gets them. -/
theorem follow_of_not (h : i.Alike session i') {header : Header} (hother : header.session ≠ session) :
    (i.follow (.started header)).Alike session i' ∧ (i.follow (.ended header)).Alike session i' := by
  have hne : session ≠ header.session := hother.symm
  constructor
  · refine ⟨?_, h.reassembly⟩
    unfold Intake.follow
    dsimp only
    rw [Sessions.get?_start_of_ne hne, h.known]
  · unfold Intake.follow
    dsimp only
    split
    · refine ⟨?_, ?_⟩
      · dsimp only
        rw [Sessions.get?_stop_of_ne hne, h.known]
      · dsimp only
        split
        · exact h.reassembly.discardSession_of_not hother
        · exact h.reassembly
    · exact h

/-- **A control frame of the session calls for the same.** -/
theorem answer (h : i.Alike session i') {header : Header} (hown : header.session = session) :
    i'.answer header = i.answer header := by
  have hended : i'.told (.ended header) = i.told (.ended header) := by
    obtain ⟨hbelieves, hversion⟩ := h.believes hown
    unfold told
    dsimp only
    rw [hbelieves, hversion]
  unfold Intake.answer
  rw [hended]
  rfl

theorem afterControl (h : i.Alike session i') {header : Header} (hown : header.session = session) :
    (i.afterControl header).Alike session (i'.afterControl header) := by
  obtain ⟨hstarted, hended⟩ := h.follow hown
  unfold Intake.afterControl
  rcases header.ruling?_eq with hruling | hruling | hruling <;> rw [hruling]
  · exact h
  · exact hstarted
  · exact hended

theorem afterControl_of_not (h : i.Alike session i') {header : Header} (hother : header.session ≠ session) :
    (i.afterControl header).Alike session i' := by
  obtain ⟨hstarted, hended⟩ := h.follow_of_not hother
  unfold Intake.afterControl
  rcases header.ruling?_eq with hruling | hruling | hruling <;> rw [hruling]
  · exact h
  · exact hstarted
  · exact hended

/-- **Arrivals of the session call for the same**, unless there is no room for a first frame. -/
theorem after_of_isOf (h : i.Alike session i') {a : Arrival} (hown : a.isOf session = true)
    (hroom : ∀ header limit, header.session = session →
      i.reaction a ≠ .tell [.fault (.reassembling header) (.reassembly (.tooManyOpen header limit))]) :
    i'.reaction a = i.reaction a ∧ (i.after a).Alike session (i'.after a) := by
  cases a with
  | error fault => cases hown
  | ok f =>
    have hsession : f.header.session = session := by simpa [Arrival.isOf] using hown
    by_cases hcontrol : f.header.type = .control
    · simp only [after, reaction, if_pos hcontrol]
      exact ⟨h.answer hsession, h.afterControl hsession⟩
    · simp only [after, reaction, if_neg hcontrol] at hroom ⊢
      obtain ⟨hresult, halike⟩ := h.reassembly.accept_of_isOf hsession
        (fun hfull => hroom f.header _ hsession (by rw [hfull]; rfl))
      exact ⟨by rw [hresult], h.known, halike⟩

/-- **Other arrivals keep two intakes alike**, although only the first one gets them. -/
theorem after_of_not (h : i.Alike session i') {a : Arrival} (hother : a.isOf session = false) :
    (i.after a).Alike session i' := by
  cases a with
  | error fault => exact h
  | ok f =>
    have hsession : f.header.session ≠ session := by simpa [Arrival.isOf] using hother
    by_cases hcontrol : f.header.type = .control
    · simp only [after, if_pos hcontrol]
      exact h.afterControl_of_not hsession
    · simp only [after, if_neg hcontrol]
      exact ⟨h.known, h.reassembly.accept_of_not hsession⟩

end Intake.Alike

/-! ## Isolation -/

section Isolation

variable {σ τ : Type} {env : Environment σ} {env' : Environment τ} {session : UInt8}

/-- Whatever a reaction leaves in the journal is recorded. -/
theorem Environment.mem_record {p : Partners σ} {reactions : List Reaction} {notices : List Notice}
    (h : .tell notices ∈ reactions) {n : Notice} (hn : n ∈ notices) : .told n ∈ env.record p reactions := by
  induction reactions generalizing p with
  | nil => cases h
  | cons r reactions ih =>
    rcases List.mem_cons.mp h with rfl | h
    · exact List.mem_append_left _ (List.mem_map_of_mem hn)
    · exact List.mem_append_right _ (ih h)

/-- **From alike intakes**, arrivals of the session bring the same, and the others bring nothing to the session. -/
theorem Endpoint.responses_of_alike {e : Endpoint σ} {e' : Endpoint τ} (h : e.link.Free) (h' : e'.link.Free)
    (halike : e.intake.Alike session e'.intake) (arrivals : List Arrival)
    (hroom : ∀ header limit, header.session = session →
      .tell [.fault (.reassembling header) (.reassembly (.tooManyOpen header limit))] ∉ e.intake.reactions arrivals)
    (hsame : ((e.responses env arrivals).filter fun r => r.arrival.isOf session).map Response.failure
      = (e'.responses env' (arrivals.filter (Arrival.isOf session))).map Response.failure) :
    (e.responses env arrivals).filter (fun r => r.arrival.isOf session)
        = e'.responses env' (arrivals.filter (Arrival.isOf session))
      ∧ (arrivals.foldl (onArrival env) e).intake.Alike session
        ((arrivals.filter (Arrival.isOf session)).foldl (onArrival env') e').intake := by
  induction arrivals generalizing e e' with
  | nil => exact ⟨rfl, halike⟩
  | cons a arrivals ih =>
    have hnext := hears_onArrival env h a
    have hrest : ∀ header limit, header.session = session →
        .tell [.fault (.reassembling header) (.reassembly (.tooManyOpen header limit))]
          ∉ (e.onArrival env a).intake.reactions arrivals := by
      intro header limit hheader hmem
      rw [intake_onArrival env h.locked] at hmem
      exact hroom header limit hheader (List.mem_cons_of_mem _ hmem)
    have harrival : (e.response env a).arrival = a := rfl
    by_cases hown : a.isOf session = true
    · obtain ⟨hreaction, hafter⟩ := halike.after_of_isOf hown
        (fun header limit hheader hfull => hroom header limit hheader (hfull ▸ List.mem_cons_self))
      have hnext' := hears_onArrival env' h' a
      rw [← intake_onArrival env h.locked, ← intake_onArrival env' h'.locked] at hafter
      simp only [responses, List.filter_cons, harrival, hown, if_true, List.map_cons, List.cons.injEq,
        List.foldl_cons] at hsame ⊢
      obtain ⟨hresponses, hlast⟩ := ih hnext.free hnext'.free hafter hrest hsame.2
      refine ⟨⟨?_, hresponses⟩, hlast⟩
      have hentries : (e.response env a).entries = (e'.response env' a).entries := by
        rw [response_eq h, response_eq h', hreaction, hsame.1]
      exact Response.ext rfl hsame.1 hentries
    · simp only [responses, List.filter_cons, harrival, hown, List.foldl_cons] at hsame ⊢
      have hafter := halike.after_of_not (eq_false_of_ne_true hown)
      rw [← intake_onArrival env h.locked] at hafter
      exact ih hnext.free h' hafter hrest hsame

/-- Nothing arrives yet, and a session is like any other. -/
theorem Endpoint.alike_of_open? {carrier : σ} {carrier' : τ} {e : Endpoint σ} {e' : Endpoint τ}
    (hopen : Endpoint.open? env carrier = .ok e) (hopen' : Endpoint.open? env' carrier' = .ok e')
    (hsettings : env'.settings = env.settings) (session : UInt8) : e.intake.Alike session e'.intake := by
  obtain ⟨-, rfl⟩ := Endpoint.eq_of_open? hopen
  obtain ⟨-, rfl⟩ := Endpoint.eq_of_open? hopen'
  refine ⟨rfl, fun _ _ => rfl, fun _ _ => rfl, ?_, ?_⟩
  · exact congrArg Settings.maxMessageSize hsettings
  · exact congrArg Settings.maxOpenMessages hsettings

end Isolation

/-- **Sessions do not influence each other.** Whatever arrives at a fresh endpoint, the frames of a session bring what
    they bring to another fresh endpoint that gets no others, in the same order: the same entries, frame by frame, of
    what the listener is told and of what is handed to the transport. In the end the session is the same in both, and
    so are its messages under way. Listener and transport fail alike at the frames of the session, and no first frame
    of the session is refused for lack of room. -/
theorem sessions_isolated {σ τ : Type} {env : Environment σ} {env' : Environment τ} {carrier : σ} {carrier' : τ}
    {e : Endpoint σ} {e' : Endpoint τ} (hopen : Endpoint.open? env carrier = .ok e)
    (hopen' : Endpoint.open? env' carrier' = .ok e') (hsettings : env'.settings = env.settings) (session : UInt8)
    (arrivals : List Arrival)
    (hroom : ∀ header limit, header.session = session →
      .fault (.reassembling header) (.reassembly (.tooManyOpen header limit))
        ∉ (arrivals.foldl (Endpoint.onArrival env) e).link.notices)
    (hsame : ((e.responses env arrivals).filter fun r => r.arrival.isOf session).map Response.failure
      = (e'.responses env' (arrivals.filter (Arrival.isOf session))).map Response.failure) :
    let last := arrivals.foldl (Endpoint.onArrival env) e
    let last' := (arrivals.filter (Arrival.isOf session)).foldl (Endpoint.onArrival env') e'
    (e.responses env arrivals).filter (fun r => r.arrival.isOf session)
        = e'.responses env' (arrivals.filter (Arrival.isOf session))
      ∧ last'.link.sessions.get? session = last.link.sessions.get? session
      ∧ ∀ key : MessageKey, key.session = session →
        last'.reassembly.opened.get? key = last.reassembly.opened.get? key := by
  have hfree := Endpoint.free_of_open? hopen
  have hfree' := Endpoint.free_of_open? hopen'
  have halike := Endpoint.alike_of_open? hopen hopen' hsettings session
  have hadmitted : ∀ header limit, header.session = session →
      .tell [.fault (.reassembling header) (.reassembly (.tooManyOpen header limit))]
        ∉ e.intake.reactions arrivals := by
    -- a refusal would have been told
    intro header limit hheader hmem
    refine hroom header limit hheader (List.mem_filterMap.mpr ⟨.told _, ?_, rfl⟩)
    rw [(Endpoint.hears_foldl_onArrival env hfree arrivals).journal]
    exact List.mem_append_right _ (Environment.mem_record hmem List.mem_cons_self)
  obtain ⟨hresponses, hknown, hunderway⟩ :=
    Endpoint.responses_of_alike hfree hfree' halike arrivals hadmitted hsame
  exact ⟨hresponses, hknown, hunderway.own⟩

/-- A listener that does not take the first message, and a transport that loses the second frame. -/
def careless : Environment Nat where
  settings := contention.settings
  transport := .numbered 1 fun n => if n = 1 then some ["lost"] else none
  refusal := fun n => if n = 0 then some ["busy"] else none

/-- A listener that takes every message, and a transport that carries every frame in its own time. -/
def patient : Environment Unit where
  settings := contention.settings
  transport := { call := fun u _ => (u, { delay := 5 }) }

/-- Two sessions with a message each, under the same id; the first session asks for a service in vain and ends. -/
def crossing : List Arrival :=
  [.ok (.control 1 .rpc 1 .startServiceAck), .ok (.control 1 .rpc 2 .startServiceAck),
    .ok (.data 1 .first .rpc 0 1 0 [0, 0, 0, 10, 0, 0, 0, 1]), .ok (.data 1 .first .rpc 0 2 0 [0, 0, 0, 10, 0, 0, 0, 1]),
    .ok (.control 1 .nav 2 .startService), .ok (.data 1 .consecutive .rpc 0 1 0 [1, 2]),
    .ok (.control 1 .nav 1 .startService), .ok (.control 1 .rpc 1 .endService),
    .ok (.data 1 .consecutive .rpc 0 2 0 [3, 4])]

/-- The second session notices nothing of that. -/
theorem sessions_isolated_crossing :
    ∃ e e', Endpoint.open? careless 0 = .ok e ∧ Endpoint.open? patient () = .ok e' ∧
      let last := crossing.foldl (Endpoint.onArrival careless) e
      let own := crossing.filter (Arrival.isOf 2)
      let last' := own.foldl (Endpoint.onArrival patient) e'
      last.link.notices.length = 9 ∧ own.length = 4
        ∧ (e.responses careless crossing).filter (fun r => r.arrival.isOf 2) = e'.responses patient own
        ∧ last'.link.sessions.get? 2 = last.link.sessions.get? 2
        ∧ (∀ key : MessageKey, key.session = 2 →
          last'.reassembly.opened.get? key = last.reassembly.opened.get? key)
        ∧ last'.link.messages = [{ version := 1, service := .rpc, session := 2, body := { data := [3, 4] } }] := by
  have hopen : Endpoint.open? careless 0 = .ok _ := rfl
  have hopen' : Endpoint.open? patient () = .ok _ := rfl
  refine ⟨_, _, hopen, hopen', ?_⟩
  intro last own last'
  have hquiet : ∀ n ∈ last.link.notices, n.isReceiveFault = false := by decide +kernel
  have hroom : ∀ header limit, header.session = 2 →
      .fault (.reassembling header) (.reassembly (.tooManyOpen header limit)) ∉ last.link.notices :=
    fun header limit _ hmem => nomatch hquiet _ hmem
  obtain ⟨hresponses, hknown, hunderway⟩ :=
    sessions_isolated hopen hopen' rfl 2 crossing hroom (by decide +kernel)
  exact ⟨by decide +kernel, by decide +kernel, hresponses, hknown, hunderway, by decide +kernel⟩

end HeadLink
