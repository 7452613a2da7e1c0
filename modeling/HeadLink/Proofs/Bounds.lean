import HeadLink.Proofs.Alignment
import HeadLink.Proofs.Feeding
import HeadLink.Proofs.Teardown

/-!
# What a peer can make an endpoint hold

Whatever bytes a peer sends, and however they come in chunks, an endpoint holds no more than its settings allow. Of
a frame it holds a part of the header, or a part of a payload whose size was accepted; of what it skips it only
counts the bytes. As many messages are under way as may be open, and none has announced or collected more than a
message may have. All this holds in the middle of a chunk as well.

The bounds of the frames are those that a deframer keeps anyway (`Deframer.Sound`), together with the ceiling, which
never changes. Those of the messages are checked by the reassembly before it takes anything in: a first frame does
not open a message that is too large or one too many, and a consecutive frame that is too much for its message ends
it (`Reassembly.Within.accept`).

What a message was made of is read off the frames that were received. A draft has what the consecutive frames of its
key have brought since its first one, all of them and nothing else (`Reassembly.Gathers`). So when a frame completes a
message, the check of the size that this frame passes is one on all that the message is made of
(`Reassembly.Gathers.accept`).

## Contents
- **Frames received.** `Message.CompletedBy` is a message that a frame completes after others, and `Completions` the
  messages that were completed while frames came.
- **Drafts.** `Draft.GatheredFrom`: what a draft has is what was received for it; `Reassembly.Gathers`.
- **Messages under way.** `Reassembly.Within`, and what arrivals do to it (`Intake.within_after`).
- **In the middle of a chunk.** `Reception` and its steps; an endpoint that takes chunks makes such steps
  (`Endpoint.Span.receives`).
- **Bounds.** What steps keep (`Reception.Contained`), what follows from it (`Reception.Bounded`), and
  `input_is_bounded`.
-/

namespace HeadLink

variable {σ : Type} {env : Environment σ}

/-! ## Frames received -/

/-- What the consecutive frames of a key bring, one after the other. -/
def MessageKey.brought (k : MessageKey) (frames : List Frame) : Bytes :=
  frames.flatMap fun f => (Reassembly.Event.frame f).brings k

theorem MessageKey.brought_snoc (k : MessageKey) (frames : List Frame) (f : Frame) :
    k.brought (frames ++ [f]) = k.brought frames ++ (Reassembly.Event.frame f).brings k := by
  unfold brought
  rw [List.flatMap_append, List.flatMap_singleton]

/-- **The frame completes the message, after the others were received**: it is a single frame, or it is a consecutive
    one, and the message is what the consecutive frames of its key have brought since a certain first frame of that
    key, no more bytes than the limit. -/
inductive Message.CompletedBy (limit : Nat) (received : List Frame) (f : Frame) (m : Message) : Prop
  | single (type : f.header.type = .single) (payload : Message.ofPayload? f.header f.payload = .ok m)
  | split {before since : List Frame} {first : Frame} (type : f.header.type = .consecutive)
      (frames : received = before ++ first :: since) (opens : first.header.type = .first)
      (key : first.header.key = f.header.key) (size : (f.header.key.brought (since ++ [f])).length ≤ limit)
      (payload : Message.ofPayload? first.header (f.header.key.brought (since ++ [f])) = .ok m)

/-- **The messages that were completed while the frames came**, one after the other, each by a frame of its own. -/
inductive Completions (limit : Nat) : List Frame → List Message → Prop
  | nil : Completions limit [] []
  /-- A frame completes nothing. -/
  | idle {received : List Frame} {messages : List Message} (h : Completions limit received messages) (f : Frame) :
      Completions limit (received ++ [f]) messages
  | brings {received : List Frame} {messages : List Message} {f : Frame} {m : Message}
      (h : Completions limit received messages) (completed : m.CompletedBy limit received f) :
      Completions limit (received ++ [f]) (messages ++ [m])

/-! ## Drafts -/

/-- A consecutive frame brings its payload for its own key. -/
theorem Reassembly.brings_key {f : Frame} (type : f.header.type = .consecutive) :
    (Event.frame f).brings f.header.key = f.payload :=
  if_pos ⟨type, rfl⟩

/-- **The draft has what the consecutive frames of the key have brought** since a certain first frame of that key. -/
def Draft.GatheredFrom (received : List Frame) (k : MessageKey) (d : Draft) : Prop :=
  ∃ before first since, received = before ++ first :: since
    ∧ first.header.type = .first ∧ first.header.key = k ∧ d = ⟨first.header, k.brought since⟩

namespace Draft.GatheredFrom

variable {received : List Frame} {f : Frame} {k : MessageKey} {d : Draft}

/-- A draft gets what the next frame brings for its key. -/
theorem snoc (h : d.GatheredFrom received k) {bytes : Bytes} (hbrings : (Reassembly.Event.frame f).brings k = bytes) :
    Draft.GatheredFrom (received ++ [f]) k { d with bytes := d.bytes ++ bytes } := by
  obtain ⟨before, first, since, rfl, htype, hkey, rfl⟩ := h
  refine ⟨before, first, since ++ [f], List.append_assoc .., htype, hkey, ?_⟩
  rw [MessageKey.brought_snoc, hbrings]

/-- A frame that brings nothing for the key of a draft leaves it as it is. -/
theorem idle (h : d.GatheredFrom received k) (hnothing : (Reassembly.Event.frame f).brings k = []) :
    d.GatheredFrom (received ++ [f]) k := by
  have hsnoc := h.snoc hnothing
  rwa [List.append_nil] at hsnoc

/-- **A message is completed** by a frame of its key that is not too much for its draft. -/
theorem completedBy (h : d.GatheredFrom received f.header.key) (type : f.header.type = .consecutive)
    {limit : Nat} (size : d.bytes.length + f.payload.length ≤ limit) {m : Message}
    (payload : Message.ofPayload? d.header (d.bytes ++ f.payload) = .ok m) : m.CompletedBy limit received f := by
  obtain ⟨before, first, since, rfl, hfirst, hkey, rfl⟩ := h
  have hbrought : f.header.key.brought (since ++ [f]) = f.header.key.brought since ++ f.payload := by
    rw [MessageKey.brought_snoc, Reassembly.brings_key type]
  refine .split type rfl hfirst hkey ?_ ?_
  · rw [hbrought, List.length_append]
    exact size
  · rw [hbrought]
    exact payload

end Draft.GatheredFrom

namespace Reassembly

variable {r : Reassembly} {received : List Frame} {f : Frame}

/-- **All drafts have what the frames have brought.** -/
def Gathers (received : List Frame) (r : Reassembly) : Prop :=
  ∀ k d, r.draft k = some d → d.GatheredFrom received k

/-- Frames that the reassembly does not get bring nothing to drafts. -/
theorem Gathers.snoc_of_control (h : r.Gathers received) (hcontrol : f.header.type = .control) :
    r.Gathers (received ++ [f]) := by
  intro k d hd
  have hnever : f.header.type ≠ .consecutive := by simp [hcontrol]
  exact (h k d hd).idle (brings_of_type_ne hnever k)

theorem Gathers.discardSession (h : r.Gathers received) (session : UInt8) :
    (r.discardSession session).Gathers received := by
  intro k d hd
  rw [draft_discardSession] at hd
  split at hd
  · cases hd
  · exact h k d hd

/-- **A frame adds what it brings to the draft of its key**, and what it completes is made of no more than a message
    may have: the size that is checked is that of all that was brought. -/
theorem Gathers.accept (h : r.Gathers received) (f : Frame) :
    (r.accept f).1.Gathers (received ++ [f])
      ∧ ∀ m, (r.accept f).2 = .ok (some m) → m.CompletedBy r.maxMessageSize received f := by
  have hrule := r.rule_accept f
  generalize hresult : (r.accept f).2 = result at hrule ⊢
  generalize hafter : (r.accept f).1.draft f.header.key = after at hrule
  generalize hbefore : r.draft f.header.key = before at hrule
  -- the drafts of other keys stay; the draft of the key of the frame keeps to the rules
  have hgathers (hown : ∀ d, after = some d → d.GatheredFrom (received ++ [f]) f.header.key) :
      (r.accept f).1.Gathers (received ++ [f]) := by
    intro k d hd
    by_cases hk : f.header.key = k
    · subst hk
      exact hown d (hafter.symm.trans hd)
    · rw [draft_accept_of_ne r hk] at hd
      exact (h k d hd).idle (if_neg fun hbrings => hk hbrings.2)
  have hgone (hnone : after = none) : (r.accept f).1.Gathers (received ++ [f]) :=
    hgathers fun d hd => nomatch hnone.symm.trans hd
  have hsame (heq : before = after) (htype : f.header.type ≠ .consecutive) :
      (r.accept f).1.Gathers (received ++ [f]) :=
    hgathers fun d hd => (h _ d (hbefore.trans (heq.trans hd))).idle (brings_of_type_ne htype _)
  cases hrule with
  | single type =>
    exact ⟨hsame rfl (by simp [type]), fun m hm => .single type (ofPayload?_of_outcome hm)⟩
  | control type | short type | large type | full type =>
    exact ⟨hsame rfl (by simp [type]), fun m hm => nomatch hm⟩
  | orphan | overflows => exact ⟨hgone rfl, fun m hm => nomatch hm⟩
  | opens type =>
    refine ⟨hgathers ?_, fun m hm => nomatch hm⟩
    rintro d ⟨rfl⟩
    exact ⟨received, f, [], rfl, type, rfl, rfl⟩
  | adds type =>
    refine ⟨hgathers ?_, fun m hm => nomatch hm⟩
    rintro d' ⟨rfl⟩
    exact (h _ _ hbefore).snoc (brings_key type)
  | completes type size =>
    refine ⟨hgone rfl, ?_⟩
    intro m hm
    exact (h _ _ hbefore).completedBy type size (ofPayload?_of_outcome hm)

end Reassembly

/-! ## Messages under way -/

namespace Reassembly

variable {size count : Nat} {r r' : Reassembly} {f : Frame}

/-- **The reassembly keeps to its limits.** -/
structure Within (size count : Nat) (r : Reassembly) : Prop where
  maxMessageSize : r.maxMessageSize = size
  maxOpen : r.maxOpen = count
  openCount : r.openCount ≤ count
  parts : ∀ {k part}, r.opened.get? k = some part → part.announced ≤ size ∧ part.collected.size ≤ size

/-- **A frame opens no message for which there is no room.** -/
theorem Alters.openCount_le (halters : r.Alters f r') (h : r.openCount ≤ r.maxOpen) : r'.openCount ≤ r.maxOpen := by
  cases halters with
  | leaves => exact h
  | opens size room =>
    show (r.opened.insert _ _).size ≤ r.maxOpen
    rw [Table.size_insert]
    split
    · exact h
    · rename_i hnew
      exact room.resolve_right hnew
  | ends hopened =>
    have hothers : (r.opened.erase f.header.key).size + 1 = r.openCount := Table.size_erase hopened
    show (r.opened.erase _).size ≤ r.maxOpen
    omega
  | adds hopened =>
    have hothers : (r.opened.erase f.header.key).size + 1 = r.openCount := Table.size_erase hopened
    show ((r.opened.erase _).insert _ _).size ≤ r.maxOpen
    rw [Table.size_insert]
    split <;> omega

/-- **No message announces or collects more than a message may have.** -/
theorem parts_accept (h : ∀ {k part}, r.opened.get? k = some part →
      part.announced ≤ r.maxMessageSize ∧ part.collected.size ≤ r.maxMessageSize)
    {k : MessageKey} {part : Partial} (hpart : (r.accept f).1.opened.get? k = some part) :
    part.announced ≤ r.maxMessageSize ∧ part.collected.size ≤ r.maxMessageSize := by
  by_cases hk : f.header.key = k
  · subst hk
    have halters := r.alters_accept f
    generalize (r.accept f).1 = r' at halters hpart
    cases halters with
    | leaves => exact h hpart
    | opens size room =>
      rw [Table.get?_insert, if_pos rfl] at hpart
      cases hpart
      exact ⟨size, Nat.zero_le _⟩
    | ends =>
      rw [Table.get?_erase, if_pos rfl] at hpart
      cases hpart
    | @adds before hbefore hsize =>
      rw [Table.get?_insert, if_pos rfl] at hpart
      cases hpart
      refine ⟨(h hbefore).1, ?_⟩
      show (before.collected ++ f.payload).size ≤ _
      rw [← Array.length_toList, Array.toList_appendList, List.length_append, Array.length_toList]
      exact hsize
  · rw [get?_accept_of_ne r hk] at hpart
    exact h hpart

theorem Within.accept (h : r.Within size count) (f : Frame) : (r.accept f).1.Within size count := by
  obtain ⟨rfl, rfl, hroom, hparts⟩ := h
  obtain ⟨hsize, hcount⟩ := limits_accept r f
  exact ⟨hsize, hcount, (r.alters_accept f).openCount_le hroom, parts_accept hparts⟩

theorem Within.discardSession (h : r.Within size count) (session : UInt8) :
    (r.discardSession session).Within size count where
  maxMessageSize := h.maxMessageSize
  maxOpen := h.maxOpen
  openCount := (Table.size_filterKeys_le _ _).trans h.openCount
  parts := by
    intro k part hpart
    rw [get?_discardSession] at hpart
    split at hpart
    · cases hpart
    · exact h.parts hpart

end Reassembly

/-- **Arrivals keep the reassembly within its limits.** -/
theorem Intake.within_after {size count : Nat} {i : Intake} (h : i.reassembly.Within size count) (a : Arrival) :
    (i.after a).reassembly.Within size count := by
  cases a with
  | error fault => exact h
  | ok f =>
    simp only [after]
    by_cases hcontrol : f.header.type = .control
    · simp only [if_pos hcontrol]
      rcases i.reassembly_cases_afterControl f.header with hsame | ⟨session, hdiscard⟩
      · rwa [hsame]
      · rw [hdiscard]
        exact h.discardSession session
    · simp only [if_neg hcontrol]
      exact h.accept f

/-- **After an arrival the drafts have what the frames have brought**, and the message that it brings is completed by
    it. -/
theorem Intake.gathers_after {received : List Frame} {messages : List Message} {i : Intake}
    (h : i.reassembly.Gathers received) (hmessages : Completions i.reassembly.maxMessageSize received messages)
    (a : Arrival) :
    (i.after a).reassembly.Gathers (received ++ Arrival.frames [a])
      ∧ Completions i.reassembly.maxMessageSize (received ++ Arrival.frames [a])
        (messages ++ (i.reaction a).message?.toList) := by
  cases a with
  | error fault =>
    have hnone : Arrival.frames [Except.error fault] = [] := rfl
    rw [hnone, List.append_nil]
    exact ⟨h, (List.append_nil messages).symm ▸ hmessages⟩
  | ok f =>
    show _ ∧ Completions _ (received ++ [f]) _
    simp only [after, reaction]
    by_cases hcontrol : f.header.type = .control
    · have hnone : (i.answer f.header).message? = none := by
        cases hanswer : i.answer f.header with
        | deliver m => exact absurd hanswer (answer_ne_deliver i f.header m)
        | tell notices | grant header => rfl
      simp only [if_pos hcontrol, hnone, Option.toList_none, List.append_nil]
      refine ⟨?_, hmessages.idle f⟩
      rcases i.reassembly_cases_afterControl f.header with hsame | ⟨session, hdiscard⟩
      · rw [hsame]
        exact h.snoc_of_control hcontrol
      · rw [hdiscard]
        exact (h.snoc_of_control hcontrol).discardSession session
    · simp only [if_neg hcontrol]
      obtain ⟨hgathers, hcompletes⟩ := h.accept f
      refine ⟨hgathers, ?_⟩
      cases hresult : (i.reassembly.accept f).2 with
      | error fault => exact (List.append_nil messages).symm ▸ hmessages.idle f
      | ok completed =>
        cases completed with
        | none => exact (List.append_nil messages).symm ▸ hmessages.idle f
        | some m => exact hmessages.brings (hcompletes m hresult)

/-! ## In the middle of a chunk -/

/-- **An endpoint that is in the middle of receiving.** -/
structure Reception (σ : Type) where
  endpoint : Endpoint σ
  /-- What has been cut off the current chunk and is not dealt with yet. -/
  pending : List Arrival := []
  /-- What is left of the current chunk. -/
  rest : Bytes := []

namespace Reception

/-- **What can happen next while an endpoint receives**, with the arrival that is dealt with, if one is. A chunk is cut
    pass by pass before what has arrived with it is dealt with. -/
inductive Step (env : Environment σ) : Reception σ → List Arrival → Reception σ → Prop
  | chunk {e : Endpoint σ} (chunk : Bytes) : Step env ⟨e, [], []⟩ [] ⟨e, [], chunk⟩
  | cut {e : Endpoint σ} {pending : List Arrival} {b : UInt8} {rest : Bytes} :
      Step env ⟨e, pending, b :: rest⟩ [] ⟨{ e with deframer := (e.deframer.pass b rest).deframer },
        pending ++ (e.deframer.pass b rest).arrival.toList, (e.deframer.pass b rest).rest⟩
  | deal {e : Endpoint σ} {a : Arrival} {pending : List Arrival} :
      Step env ⟨e, a :: pending, []⟩ [a] ⟨e.onArrival env a, pending, []⟩
  /-- The application asks for something, workers go on, or time passes. -/
  | meanwhile {e e' : Endpoint σ} {pending : List Arrival} {rest : Bytes} (move : Endpoint.Move env e [] e')
      (deframer : e'.deframer = e.deframer) : Step env ⟨e, pending, rest⟩ [] ⟨e', pending, rest⟩

/-- Any number of steps, with the arrivals that are dealt with. -/
abbrev Steps (env : Environment σ) : Reception σ → List Arrival → Reception σ → Prop := Trail (Step env)

/-- A chunk is cut, pass by pass. The induction is on what is left of it. -/
theorem steps_push (e : Endpoint σ) (pending : List Arrival) (chunk : Bytes) :
    Steps env ⟨e, pending, chunk⟩ []
      ⟨{ e with deframer := (e.deframer.push chunk).1 }, pending ++ (e.deframer.push chunk).2, []⟩ := by
  induction hlength : chunk.length using Nat.strong_induction_on generalizing e pending chunk with
  | _ length ih =>
    subst hlength
    cases chunk with
    | nil =>
      rw [Deframer.push_nil, List.append_nil]
      exact .refl
    | cons b rest =>
      have hrest := ih _ (Deframer.length_rest_pass_lt e.deframer b rest)
        { e with deframer := (e.deframer.pass b rest).deframer }
        (pending ++ (e.deframer.pass b rest).arrival.toList) _ rfl
      rw [Deframer.push_cons, ← List.append_assoc]
      exact (Trail.single .cut).trans hrest

/-- What has arrived is dealt with. -/
theorem steps_foldl_onArrival (e : Endpoint σ) (pending : List Arrival) :
    Steps env ⟨e, pending, []⟩ pending ⟨pending.foldl (Endpoint.onArrival env) e, [], []⟩ := by
  induction pending generalizing e with
  | nil => exact .refl
  | cons a pending ih => exact (Trail.single .deal).trans (ih (e.onArrival env a))

theorem steps_receive (e : Endpoint σ) (chunk : Bytes) :
    Steps env ⟨e, [], []⟩ (e.deframer.push chunk).2 ⟨e.receive env chunk, [], []⟩ := by
  have hcut : Steps env ⟨e, [], []⟩ [] _ := (Trail.single (.chunk chunk)).trans (steps_push e [] chunk)
  exact hcut.trans (steps_foldl_onArrival _ _)

end Reception

/-- The bytes that come with an action. -/
def Action.bytes : Action → Bytes
  | .receive chunk => chunk
  | _ => []

theorem Action.bytes_eq_nil {a : Action} (own : ∀ chunk, a ≠ .receive chunk) : a.bytes = [] := by
  cases a with
  | receive chunk => exact absurd rfl (own chunk)
  | send | startSession | startService | endService | sleep | close => rfl

namespace Endpoint

variable {e e' : Endpoint σ}

/-- The endpoint receives the bytes: what arrives with them is dealt with. -/
structure Receives (env : Environment σ) (e : Endpoint σ) (bytes : Bytes) (e' : Endpoint σ) : Prop where
  steps : Reception.Steps env ⟨e, [], []⟩ (e.deframer.push bytes).2 ⟨e', [], []⟩
  deframer : e'.deframer = (e.deframer.push bytes).1

theorem Receives.refl (env : Environment σ) (e : Endpoint σ) : Receives env e [] e := by
  refine ⟨?_, ?_⟩
  · rw [Deframer.push_nil]
    exact .refl
  · rw [Deframer.push_nil]

/-- Something else happens than that bytes come. -/
theorem Receives.meanwhile (move : Move env e [] e') (hdeframer : e'.deframer = e.deframer) :
    Receives env e [] e' := by
  refine ⟨?_, ?_⟩
  · rw [Deframer.push_nil]
    exact .single (.meanwhile move hdeframer)
  · rw [Deframer.push_nil, hdeframer]

theorem Receives.trans {e'' : Endpoint σ} {before after : Bytes} (h : Receives env e before e')
    (h' : Receives env e' after e'') (hsound : e.deframer.Sound) : Receives env e (before ++ after) e'' := by
  have hpush := Deframer.push_append hsound before after
  refine ⟨?_, ?_⟩
  · have hafter := h'.steps
    rw [h.deframer] at hafter
    rw [hpush]
    exact h.steps.trans hafter
  · rw [hpush, h'.deframer, h.deframer]

theorem Next.receives {actions : List Action} (next : Next env e actions e') :
    Receives env e (actions.flatMap Action.bytes) e' := by
  cases next with
  | act a =>
    rw [List.flatMap_singleton]
    by_cases own : ∀ chunk, a ≠ .receive chunk
    · obtain ⟨link, hlink⟩ := exists_link_perform env e own
      rw [Action.bytes_eq_nil own]
      exact .meanwhile (.call a own) (by rw [hlink])
    · simp only [not_forall, not_not] at own
      obtain ⟨chunk, rfl⟩ := own
      exact ⟨Reception.steps_receive e chunk, deframer_receive e chunk⟩
  | work => exact .meanwhile .work rfl
  | pass ms => exact .meanwhile (.pass ms) rfl

/-- **In whatever chunks bytes come**, and whatever happens between them, an endpoint receives them. -/
theorem Span.receives {actions : List Action} (span : Span env e actions e') (hsound : e.deframer.Sound) :
    Receives env e (actions.flatMap Action.bytes) e' := by
  induction span with
  | refl => exact .refl env _
  | tail _ next ih =>
    rw [List.flatMap_append]
    exact ih.trans next.receives hsound

end Endpoint

/-! ## Bounds -/

/-- Arrivals are dealt with without the deframer. -/
theorem Endpoint.deframer_onArrival (env : Environment σ) (e : Endpoint σ) (a : Arrival) :
    (e.onArrival env a).deframer = e.deframer := by
  have hsame : e.onArrival env a = { e.onArrival env a with deframer := e.deframer } :=
    onArrival_deframer e.deframer a
  rw [hsame]

namespace Reception

variable {t t' : Reception σ} {past new : List Arrival}

/-- **What is kept while an endpoint receives**, when it has dealt with the arrivals. -/
structure Contained (env : Environment σ) (past : List Arrival) (t : Reception σ) : Prop where
  locked : t.endpoint.link.outbox.Locked
  sound : t.endpoint.deframer.Sound
  ceiling : t.endpoint.deframer.ceiling = env.settings.maxFramePayload
  pending : ∀ f, .ok f ∈ t.pending → f.Fits env.settings.maxFramePayload
  reassembly : t.endpoint.reassembly.Within env.settings.maxMessageSize env.settings.maxOpenMessages
  gathers : t.endpoint.reassembly.Gathers (Arrival.frames past)
  messages : Completions env.settings.maxMessageSize (Arrival.frames past) t.endpoint.link.messages

theorem Step.contained (step : Step env t new t') (h : Contained env past t) : Contained env (past ++ new) t' := by
  cases step with
  | chunk =>
    rw [List.append_nil]
    exact ⟨h.locked, h.sound, h.ceiling, h.pending, h.reassembly, h.gathers, h.messages⟩
  | cut =>
    rw [List.append_nil]
    refine ⟨h.locked, Deframer.sound_pass h.sound _ _, (Deframer.ceiling_pass _ _ _).trans h.ceiling, ?_, h.reassembly,
      h.gathers, h.messages⟩
    intro f hf
    rcases List.mem_append.mp hf with hf | hf
    · exact h.pending f hf
    · exact h.ceiling ▸ Deframer.fits_of_pass h.sound (Option.mem_toList.mp hf)
  | @deal e a pending =>
    have hdeframer := Endpoint.deframer_onArrival env e a
    have hintake : (e.onArrival env a).reassembly = (e.intake.after a).reassembly :=
      congrArg Intake.reassembly (Endpoint.intake_onArrival env h.locked a)
    have hwithin : (e.intake.after a).reassembly.Within _ _ := Intake.within_after (i := e.intake) h.reassembly a
    have hlimit : e.intake.reassembly.maxMessageSize = env.settings.maxMessageSize := h.reassembly.maxMessageSize
    have hframes : Arrival.frames (past ++ [a]) = Arrival.frames past ++ Arrival.frames [a] := List.filterMap_append
    obtain ⟨hgathers, hmessages⟩ := Intake.gathers_after (i := e.intake) h.gathers (hlimit ▸ h.messages) a
    refine ⟨(Endpoint.Move.arrive a).locked h.locked, hdeframer ▸ h.sound, hdeframer ▸ h.ceiling,
      fun f hf => h.pending f (List.mem_cons_of_mem a hf), hintake ▸ hwithin, ?_, ?_⟩
    · rw [hframes]
      exact hintake ▸ hgathers
    · rw [hframes, Endpoint.messages_onArrival h.locked a, ← hlimit]
      exact hmessages
  | @meanwhile e e' _ _ move hdeframer =>
    rw [List.append_nil]
    rcases move.apart_or_arrive h.locked with ⟨-, hintake, hmessages⟩ | ⟨a, hnone, -⟩
    · have hreassembly : e'.reassembly = e.reassembly := congrArg Intake.reassembly hintake
      exact ⟨move.locked h.locked, hdeframer ▸ h.sound, hdeframer ▸ h.ceiling, h.pending, hreassembly ▸ h.reassembly,
        hreassembly ▸ h.gathers, hmessages ▸ h.messages⟩
    · cases hnone

theorem Steps.contained (steps : Steps env t new t') (h : Contained env past t) : Contained env (past ++ new) t' :=
  steps.keeps (fun h step => step.contained h) h

/-- A fresh endpoint holds nothing. -/
theorem contained_of_open? {carrier : σ} {e : Endpoint σ} (hopen : Endpoint.open? env carrier = .ok e) :
    Contained env [] ⟨e, [], []⟩ := by
  have hlocked := (Endpoint.Ordered.fresh hopen).outbox.locked
  have hsound := Endpoint.sound_of_open? hopen
  obtain ⟨-, rfl⟩ := Endpoint.eq_of_open? hopen
  refine ⟨hlocked, hsound, rfl, ?_, ⟨rfl, rfl, Nat.zero_le _, ?_⟩, ?_, .nil⟩
  · exact fun f hf => nomatch hf
  · exact fun hpart => nomatch hpart
  · exact fun k d hd => nomatch hd

/-- **An endpoint holds no more than its settings allow**, when it has dealt with the arrivals. -/
structure Bounded (env : Environment σ) (past : List Arrival) (t : Reception σ) : Prop where
  /-- Of a header it has at most 11 bytes. -/
  header : ∀ got, t.endpoint.deframer.phase = .header got → got.length ≤ 11
  /-- The payload that it collects belongs to a header that announces no more than it may, and is not complete. -/
  payload : ∀ header collected, t.endpoint.deframer.phase = .payload header collected →
    header.size ≤ env.settings.maxFramePayload ∧ collected.size < header.size.toNat
  /-- Of a payload that it skips it keeps nothing: whatever the bytes are, only their number counts. -/
  skipping : ∀ remaining, t.endpoint.deframer.phase = .skipping remaining → ∀ bytes, bytes.length ≤ remaining →
    t.endpoint.deframer.push bytes = (t.endpoint.deframer.skip (remaining - bytes.length), [])
  /-- Frames that are not dealt with yet have the payload that their headers announce, and no more than they may. -/
  pending : ∀ f, .ok f ∈ t.pending →
    f.header.size.toNat = f.payload.length ∧ f.header.size ≤ env.settings.maxFramePayload
  /-- There are no more messages under way than may be open. -/
  openCount : t.endpoint.reassembly.openCount ≤ env.settings.maxOpenMessages
  /-- None has announced or collected more than a message may have. -/
  parts : ∀ key part, t.endpoint.reassembly.opened.get? key = some part →
    part.announced ≤ env.settings.maxMessageSize ∧ part.collected.size ≤ env.settings.maxMessageSize
  /-- The messages that the listener got were completed by the frames that were received, one after the other, and
      none of them is made of more than a message may have. -/
  messages : Completions env.settings.maxMessageSize (Arrival.frames past) t.endpoint.link.messages

theorem Contained.bounded (h : Contained env past t) : Bounded env past t := by
  have hsound := h.sound
  unfold Deframer.Sound at hsound
  refine ⟨?_, ?_, ?_, fun f hf => ⟨(h.pending f hf).size, (h.pending f hf).within⟩, h.reassembly.openCount,
    fun key part hpart => h.reassembly.parts hpart, h.messages⟩
  · intro got hphase
    rw [hphase] at hsound
    have hlt := hsound.1.trans_le (headerLength_le_twelve _)
    exact Nat.le_of_lt_succ hlt
  · intro header collected hphase
    rw [hphase] at hsound
    exact ⟨h.ceiling ▸ hsound.2.1, hsound.1⟩
  · intro remaining hphase bytes hle
    rw [hphase] at hsound
    -- a deframer that skips is one that was told to skip what is left
    have hskip : t.endpoint.deframer = t.endpoint.deframer.skip remaining := by
      unfold Deframer.skip
      rw [if_neg (Nat.pos_iff_ne_zero.mp hsound), ← hphase]
    conv => lhs; rw [hskip]
    exact Deframer.push_skip _ hle

end Reception

/-- **The peer cannot make an endpoint hold more than its settings allow.** Whatever bytes come, in whatever chunks, and
    whatever the application does meanwhile: an endpoint that was opened makes the steps of a reception, in which it
    deals with what arrives with these bytes, and at every moment of it, in the middle of a chunk and between two
    arrivals as well, it keeps to its bounds. The messages that it has given to the listener were completed by frames
    that it has received, and those that came in several frames are made of no more bytes than a message may have. -/
theorem input_is_bounded {carrier : σ} {e : Endpoint σ} (hopen : Endpoint.open? env carrier = .ok e) :
    (∀ actions e', Endpoint.Span env e actions e' →
        Reception.Steps env ⟨e, [], []⟩ (e.deframer.push (actions.flatMap Action.bytes)).2 ⟨e', [], []⟩)
      ∧ ∀ past t, Reception.Steps env ⟨e, [], []⟩ past t → Reception.Bounded env past t := by
  refine ⟨fun actions e' span => (span.receives (Endpoint.sound_of_open? hopen)).steps, ?_⟩
  intro past t steps
  have hcontained : Reception.Contained env ([] ++ past) t := steps.contained (Reception.contained_of_open? hopen)
  exact hcontained.bounded

/-- There is room for one message of 8 bytes. -/
def frugal : Environment Nat where
  settings := { mtu := 16, maxFramePayload := 16, maxMessageSize := 8, maxOpenMessages := 1 }
  transport := .numbered 0 fun _ => none

/-- A first frame, one more of another session, and one that announces too much; a header that announces too much, in
    front of what looks like a frame; two consecutive frames; and the beginning of one that is too much. -/
def hostile : Bytes :=
  [0x12, 7, 0, 1, 0, 0, 0, 8, 0, 0, 0, 16, 0, 0, 0, 3] ++ [0x12, 7, 0, 2, 0, 0, 0, 8, 0, 0, 0, 16, 0, 0, 0, 3]
    ++ [0x12, 7, 0, 1, 0, 0, 0, 8, 0, 0, 1, 0, 0, 0, 0, 3]
    ++ [0x13, 7, 1, 1, 0, 0, 0, 17, 0x13, 7, 1, 1, 0, 0, 0, 9, 9, 9, 9, 9, 9, 9, 9, 9, 9]
    ++ [0x13, 7, 1, 1, 0, 0, 0, 4, 1, 2, 3, 4] ++ [0x13, 7, 1, 1, 0, 0, 0, 4, 5, 6, 7, 8]
    ++ [0x13, 7, 0, 1, 0, 0, 0, 16, 9, 10]

/-- A first frame, and two consecutive ones that bring 8 bytes. -/
def snug : Bytes :=
  [0x12, 7, 0, 1, 0, 0, 0, 8, 0, 0, 0, 16, 0, 0, 0, 3] ++ [0x13, 7, 1, 1, 0, 0, 0, 4, 1, 2, 3, 4]
    ++ [0x13, 7, 0, 1, 0, 0, 0, 4, 5, 6, 7, 8]

/-- The endpoint keeps to its bounds: it holds the first message, as large as a message may be, and two bytes of the
    frame that would be too much for it. With the rest of that frame the message ends, and the listener does not get
    it. A message that is as large as it may be is completed. -/
theorem input_is_bounded_hostile :
    ∃ e, Endpoint.open? frugal 0 = .ok e
      ∧ (let e' := (e.run frugal [.receive hostile]).1
        Reception.Bounded frugal (e.deframer.push hostile).2 ⟨e', [], []⟩
          ∧ e'.deframer.phase = .payload (.data 1 .consecutive .rpc 0 1 0 16) #[9, 10]
          ∧ e'.reassembly.openCount = 1
          ∧ e'.reassembly.opened.get? ⟨1, .rpc, 0⟩ = some
            { header := .data 1 .first .rpc 0 1 0 8, announced := 8, collected := #[1, 2, 3, 4, 5, 6, 7, 8] })
      ∧ let e' := (e.run frugal [.receive hostile, .receive (List.replicate 14 0)]).1
        (e'.reassembly.openCount = 0 ∧ e'.link.messages = [])
          ∧ let whole := (e.run frugal [.receive snug]).1
            Completions 8 (Arrival.frames (e.deframer.push snug).2) whole.link.messages
              ∧ whole.link.messages.map (fun m => m.body.data) = [[1, 2, 3, 4, 5, 6, 7, 8]] := by
  have hopen : Endpoint.open? frugal 0 = .ok _ := rfl
  obtain ⟨hspans, hbounded⟩ := input_is_bounded hopen
  have hhostile := hspans _ _ (Endpoint.span_run [.receive hostile] _)
  have hsnug := hspans _ _ (Endpoint.span_run [.receive snug] _)
  rw [List.flatMap_singleton] at hhostile hsnug
  exact ⟨_, rfl, ⟨hbounded _ _ hhostile, by decide +kernel, by decide +kernel, by decide +kernel⟩, by decide +kernel,
    (hbounded _ _ hsnug).messages, by decide +kernel⟩

end HeadLink
