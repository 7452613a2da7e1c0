import Mathlib.Data.List.Induction
import Mathlib.Data.Set.Card
import HeadLink.Proofs.HeaderCodec
import HeadLink.Proofs.MessageRoundTrip

/-!
# Messages under way, key by key

For one key, putting messages together is an automaton: there is a draft of a message or none, and each frame
of the key takes it further by one of ten rules (`Reassembly.Rule`). Frames of other keys leave the draft
alone. They count only when a first frame asks whether there is room for one more draft.

What the automaton knows is how its history ends. Some events decide whether there is a draft: a first frame
that is admitted, a consecutive frame that ends the message or is too much for it, and a discard of the
session. There is a draft exactly if the last of them was a first frame, and it holds what the consecutive
frames since then have brought.

## Contents
- **Drafts.** `Draft` and `Reassembly.draft`; how many there are (`openCount_eq_ncard`).
- **Rules.** `Reassembly.Rule` is what a frame does to the draft of its key: at most one thing
  (`Rule.unique`), and what `accept` does (`rule_accept`). Other keys keep theirs (`draft_accept_of_ne`), because
  a frame alters the table at its own key only (`alters_accept`).
- **Events.** `Event`, `Reassembly.Decides`; what an event does to a draft, decided or not.
- **Histories.** `Reassembly.history`; every key has an automaton of its own (`automaton_of_key`).
-/

namespace HeadLink

/-! ## Drafts -/

/-- The unfinished message of a key: the header of its first frame, and what its consecutive frames have
    brought since. -/
structure Draft where
  header : Header
  bytes : Bytes
  deriving DecidableEq

/-- The size of the message that a first frame declares: the first word of its payload, less the header that
    is counted in. -/
def Frame.declaredSize (f : Frame) : Nat := bigEndian (f.payload.take 4) - f.header.length

namespace Reassembly

/-- What there is of the message of a key. -/
def draft (r : Reassembly) (k : MessageKey) : Option Draft :=
  (r.opened.get? k).map fun part => ⟨part.header, part.collected.toList⟩

/-- The keys that have a draft. -/
def openKeys (r : Reassembly) : Set MessageKey := {k | r.draft k ≠ none}

/-- An entry of the table is the draft of its key. -/
theorem draft_insert (r : Reassembly) (k : MessageKey) (part : Partial) (k' : MessageKey) :
    ({ r with opened := r.opened.insert k part } : Reassembly).draft k'
      = if k' = k then some ⟨part.header, part.collected.toList⟩ else r.draft k' := by
  unfold draft
  dsimp only
  rw [Table.get?_insert]
  split <;> rfl

theorem draft_erase (r : Reassembly) (k k' : MessageKey) :
    ({ r with opened := r.opened.erase k } : Reassembly).draft k'
      = if k' = k then none else r.draft k' := by
  unfold draft
  dsimp only
  rw [Table.get?_erase]
  split <;> rfl

/-- A discard takes the messages of its session, and no other. -/
theorem get?_discardSession (r : Reassembly) (session : UInt8) (k : MessageKey) :
    (r.discardSession session).opened.get? k = if k.session = session then none else r.opened.get? k := by
  unfold discardSession
  rw [Table.get?_filterKeys]
  by_cases h : k.session = session <;> simp [h]

theorem draft_discardSession (r : Reassembly) (session : UInt8) (k : MessageKey) :
    (r.discardSession session).draft k = if k.session = session then none else r.draft k := by
  unfold draft
  rw [get?_discardSession]
  split <;> rfl

theorem contains_iff_draft {r : Reassembly} {k : MessageKey} :
    r.opened.contains k = true ↔ r.draft k ≠ none := by
  unfold draft
  rw [Table.contains_eq_isSome_get?]
  cases r.opened.get? k <;> simp

/-- There are as many messages under way as keys that have a draft. -/
theorem openCount_eq_ncard (r : Reassembly) : r.openCount = r.openKeys.ncard := by
  have hkeys : r.openKeys = (r.opened.keys.toFinset : Set MessageKey) := by
    ext k
    show r.draft k ≠ none ↔ k ∈ (r.opened.keys.toFinset : Set MessageKey)
    rw [← contains_iff_draft]
    unfold Table.contains Table.keys
    simp
  have hnodup : r.opened.keys.Nodup := r.opened.nodup
  rw [hkeys, Set.ncard_coe_finset, List.toFinset_card_of_nodup hnodup]
  exact (List.length_map Prod.fst).symm

/-! ## Rules -/

/-- **What a frame does to the draft of its key**, and what it brings: a message, a fault, or nothing. -/
inductive Rule (r : Reassembly) (f : Frame) :
    Option Draft → Option Draft → Except Fault (Option Message) → Prop
  /-- A message in one frame passes by the drafts. -/
  | single {d : Option Draft} (type : f.header.type = .single) :
      Rule r f d d (outcome f.header f.payload)
  | control {d : Option Draft} (type : f.header.type = .control) :
      Rule r f d d (.error (.reassembly (.controlFrame f.header)))
  /-- A first frame begins a draft, in place of the one that there may be. -/
  | opens {d : Option Draft} (type : f.header.type = .first) (length : 8 ≤ f.payload.length)
      (size : f.declaredSize ≤ r.maxMessageSize) (room : d ≠ none ∨ r.openKeys.ncard < r.maxOpen) :
      Rule r f d (some ⟨f.header, []⟩) (.ok none)
  | short {d : Option Draft} (type : f.header.type = .first) (length : f.payload.length < 8) :
      Rule r f d d (.error (.reassembly (.announcementTruncated f.payload.length)))
  | large {d : Option Draft} (type : f.header.type = .first) (length : 8 ≤ f.payload.length)
      (size : r.maxMessageSize < f.declaredSize) :
      Rule r f d d (.error (.reassembly (.announcedTooLarge f.declaredSize r.maxMessageSize)))
  | full (type : f.header.type = .first) (length : 8 ≤ f.payload.length)
      (size : f.declaredSize ≤ r.maxMessageSize) (room : r.maxOpen ≤ r.openKeys.ncard) :
      Rule r f none none (.error (.reassembly (.tooManyOpen f.header r.maxOpen)))
  | orphan (type : f.header.type = .consecutive) :
      Rule r f none none (.error (.reassembly (.notOpen f.header)))
  /-- A consecutive frame that is too much for the message ends it. -/
  | overflows {d : Draft} (type : f.header.type = .consecutive)
      (size : r.maxMessageSize < d.bytes.length + f.payload.length) :
      Rule r f (some d) none (.error (.reassembly
        (.overflow f.header.key r.maxMessageSize d.bytes.length f.payload.length)))
  | adds {d : Draft} (type : f.header.type = .consecutive)
      (size : d.bytes.length + f.payload.length ≤ r.maxMessageSize) (detail : f.header.detail ≠ 0) :
      Rule r f (some d) (some { d with bytes := d.bytes ++ f.payload }) (.ok none)
  /-- The last frame ends the message, whether or not its payload can be read. -/
  | completes {d : Draft} (type : f.header.type = .consecutive)
      (size : d.bytes.length + f.payload.length ≤ r.maxMessageSize) (detail : f.header.detail = 0) :
      Rule r f (some d) none (outcome d.header (d.bytes ++ f.payload))

/-- A frame does one thing at most. -/
theorem Rule.unique {r : Reassembly} {f : Frame} {d d₁ d₂ : Option Draft}
    {x₁ x₂ : Except Fault (Option Message)} (h₁ : r.Rule f d d₁ x₁) (h₂ : r.Rule f d d₂ x₂) :
    d₁ = d₂ ∧ x₁ = x₂ := by
  -- two rules differ in the type of the frame, in whether there is a draft, or in a bound
  cases h₁ <;> cases h₂ <;> grind

/-- A first frame declares a size if its payload is long enough. -/
theorem announcedLength_eq (f : Frame) :
    announcedLength f.header f.payload
      = if 8 ≤ f.payload.length then some f.declaredSize else none := by
  unfold Frame.declaredSize announcedLength
  split
  · rename_i t₀ t₁ t₂ t₃ _ _ _ _ rest hpayload
    have hlong : 8 ≤ f.payload.length := by
      rw [hpayload]
      simp only [List.length_cons]
      omega
    rw [if_pos hlong, hpayload]
    exact congrArg (fun n => some (n - f.header.length)) (toNat_decode t₀ t₁ t₂ t₃)
  · rename_i hshort
    rw [if_neg]
    intro hlong
    match hpayload : f.payload with
    | t₀ :: t₁ :: t₂ :: t₃ :: t₄ :: t₅ :: t₆ :: t₇ :: rest =>
      exact hshort t₀ t₁ t₂ t₃ t₄ t₅ t₆ t₇ rest hpayload
    | [] | [_] | [_, _] | [_, _, _] | [_, _, _, _] | [_, _, _, _, _] | [_, _, _, _, _, _]
    | [_, _, _, _, _, _, _] =>
      rw [hpayload] at hlong
      simp at hlong

/-- **First frames keep to the rules.** -/
theorem rule_accept_first {r : Reassembly} {f : Frame} (h : f.header.type = .first) :
    r.Rule f (r.draft f.header.key) ((r.accept f).1.draft f.header.key) (r.accept f).2 := by
  rw [accept_of_first h]
  unfold acceptFirst
  rw [announcedLength_eq]
  by_cases hlength : 8 ≤ f.payload.length
  · rw [if_pos hlength]
    dsimp only
    split
    · rename_i hsize
      exact .large h hlength hsize
    · rename_i hsize
      rw [Nat.not_lt] at hsize
      split
      · rename_i hfull
        rw [openCount_eq_ncard, contains_iff_draft, not_not] at hfull
        dsimp only
        rw [hfull.2]
        exact .full h hlength hsize hfull.1
      · rename_i hroom
        rw [openCount_eq_ncard, contains_iff_draft, not_and_or, not_not, Nat.not_le] at hroom
        dsimp only
        rw [draft_insert, if_pos rfl]
        exact .opens h hlength hsize hroom.symm
  · rw [if_neg hlength]
    exact .short h (Nat.lt_of_not_le hlength)

theorem isLast_iff {f : Frame} (h : f.header.type = .consecutive) :
    f.header.isLast = true ↔ f.header.detail = 0 := by
  unfold Header.isLast Header.lastDetail
  rw [h]
  simp

theorem accept_of_consecutive {f : Frame} (h : f.header.type = .consecutive) (r : Reassembly) :
    r.accept f = r.acceptConsecutive f := by
  unfold accept
  rw [h]

/-- **Consecutive frames keep to the rules.** -/
theorem rule_accept_consecutive {r : Reassembly} {f : Frame} (h : f.header.type = .consecutive) :
    r.Rule f (r.draft f.header.key) ((r.accept f).1.draft f.header.key) (r.accept f).2 := by
  rw [accept_of_consecutive h]
  unfold acceptConsecutive
  cases hpart : r.opened.get? f.header.key with
  | none =>
    have hdraft : r.draft f.header.key = none := congrArg (Option.map _) hpart
    dsimp only
    rw [hdraft]
    exact .orphan h
  | some part =>
    have hdraft : r.draft f.header.key = some ⟨part.header, part.collected.toList⟩ :=
      congrArg (Option.map _) hpart
    rw [hdraft]
    dsimp only
    split
    · rename_i hover
      rw [draft_erase, if_pos rfl]
      exact .overflows h hover
    · rename_i hfits
      have hsize : part.collected.toList.length + f.payload.length ≤ r.maxMessageSize :=
        Nat.not_lt.mp hfits
      split
      · rename_i hlast
        rw [draft_erase, if_pos rfl, Array.toList_appendList]
        exact .completes (d := ⟨part.header, part.collected.toList⟩) h hsize ((isLast_iff h).mp hlast)
      · rename_i hmore
        have hdetail : f.header.detail ≠ 0 := fun hzero => hmore ((isLast_iff h).mpr hzero)
        rw [draft_insert { r with opened := r.opened.erase f.header.key }, if_pos rfl,
          Array.toList_appendList]
        exact .adds (d := ⟨part.header, part.collected.toList⟩) h hsize hdetail

/-- **Every frame keeps to the rules** of its key. -/
theorem rule_accept (r : Reassembly) (f : Frame) :
    r.Rule f (r.draft f.header.key) ((r.accept f).1.draft f.header.key) (r.accept f).2 := by
  cases h : f.header.type with
  | single =>
    have haccept : r.accept f = (r, outcome f.header f.payload) := by
      unfold accept
      rw [h]
      rfl
    rw [haccept]
    exact .single h
  | control =>
    have haccept : r.accept f = (r, .error (.reassembly (.controlFrame f.header))) := by
      unfold accept
      rw [h]
    rw [haccept]
    exact .control h
  | first => exact rule_accept_first h
  | consecutive => exact rule_accept_consecutive h

/-- **What a frame does to the table of messages**: it leaves it, opens a message for which there is room, ends one, or
    adds to one. -/
inductive Alters (r : Reassembly) (f : Frame) : Reassembly → Prop
  | leaves : Alters r f r
  | opens {announced : Nat} (size : announced ≤ r.maxMessageSize)
      (room : r.openCount < r.maxOpen ∨ r.opened.contains f.header.key = true) :
      Alters r f { r with opened := r.opened.insert f.header.key { header := f.header, announced } }
  | ends {part : Partial} (opened : r.opened.get? f.header.key = some part) :
      Alters r f { r with opened := r.opened.erase f.header.key }
  /-- The message takes its own place again. -/
  | adds {part : Partial} (opened : r.opened.get? f.header.key = some part)
      (size : part.collected.size + f.payload.length ≤ r.maxMessageSize) :
      Alters r f { r with
        opened := (r.opened.erase f.header.key).insert f.header.key
          { part with collected := part.collected ++ f.payload } }

theorem alters_accept (r : Reassembly) (f : Frame) : r.Alters f (r.accept f).1 := by
  cases htype : f.header.type with
  | single | control =>
    unfold accept
    rw [htype]
    exact .leaves
  | first =>
    rw [accept_of_first htype]
    unfold acceptFirst
    dsimp only
    split
    · exact .leaves
    · split
      · exact .leaves
      · rename_i hsize
        split
        · exact .leaves
        · rename_i hroom
          rw [not_and_or, not_not, Nat.not_le] at hroom
          exact .opens (Nat.le_of_not_lt hsize) hroom
  | consecutive =>
    rw [accept_of_consecutive htype]
    unfold acceptConsecutive
    split
    · exact .leaves
    · rename_i part hpart
      dsimp only
      split
      · exact .ends hpart
      · rename_i hsize
        split
        · exact .ends hpart
        · exact .adds hpart (Nat.le_of_not_lt hsize)

/-- Frames leave the messages of other keys alone. -/
theorem get?_accept_of_ne (r : Reassembly) {f : Frame} {k : MessageKey} (h : f.header.key ≠ k) :
    (r.accept f).1.opened.get? k = r.opened.get? k := by
  have hne : k ≠ f.header.key := h.symm
  have halters := r.alters_accept f
  generalize (r.accept f).1 = r' at halters ⊢
  cases halters with
  | leaves => rfl
  | opens => rw [Table.get?_insert, if_neg hne]
  | ends => rw [Table.get?_erase, if_neg hne]
  | adds => rw [Table.get?_insert, if_neg hne, Table.get?_erase, if_neg hne]

/-- Frames leave the drafts of other keys alone. -/
theorem draft_accept_of_ne (r : Reassembly) {f : Frame} {k : MessageKey} (h : f.header.key ≠ k) :
    (r.accept f).1.draft k = r.draft k := by
  unfold draft
  rw [get?_accept_of_ne r h]

/-- Frames leave the limits alone. -/
theorem limits_accept (r : Reassembly) (f : Frame) :
    (r.accept f).1.maxMessageSize = r.maxMessageSize ∧ (r.accept f).1.maxOpen = r.maxOpen := by
  have halters := r.alters_accept f
  generalize (r.accept f).1 = r' at halters ⊢
  cases halters with
  | leaves | opens | ends | adds => exact ⟨rfl, rfl⟩

/-! ## Events -/

/-- Something that happens to a reassembly. -/
inductive Event where
  | frame (f : Frame)
  | discard (session : UInt8)

/-- What becomes of a reassembly with an event. -/
def after (r : Reassembly) : Event → Reassembly
  | .frame f => (r.accept f).1
  | .discard session => r.discardSession session

/-- A first frame is admitted, and begins a draft. -/
structure Begins (r : Reassembly) (f : Frame) : Prop where
  type : f.header.type = .first
  length : 8 ≤ f.payload.length
  size : f.declaredSize ≤ r.maxMessageSize
  room : r.draft f.header.key ≠ none ∨ r.openKeys.ncard < r.maxOpen

/-- A consecutive frame ends the draft of its key: it is too much for it, or the last one. -/
structure Ends (r : Reassembly) (f : Frame) : Prop where
  type : f.header.type = .consecutive
  draft : ∃ d, r.draft f.header.key = some d
    ∧ (r.maxMessageSize < d.bytes.length + f.payload.length ∨ f.header.detail = 0)

/-- The event decides whether the key has a draft. -/
def Decides (r : Reassembly) (k : MessageKey) : Event → Prop
  | .frame f => f.header.key = k ∧ (r.Begins f ∨ r.Ends f)
  | .discard session => k.session = session

/-- What an event brings for the message of a key: the payload of a consecutive frame. -/
def Event.brings (k : MessageKey) : Event → Bytes
  | .frame f => if f.header.type = .consecutive ∧ f.header.key = k then f.payload else []
  | .discard _ => []

theorem brings_of_type_ne {f : Frame} (h : f.header.type ≠ .consecutive) (k : MessageKey) :
    (Event.frame f).brings k = [] := if_neg fun hf => h hf.1

theorem accept_of_begins {r : Reassembly} {f : Frame} (h : r.Begins f) :
    (r.accept f).1.draft f.header.key = some ⟨f.header, []⟩ ∧ (r.accept f).2 = .ok none :=
  (r.rule_accept f).unique (.opens h.type h.length h.size h.room)

/-- **First frames are accepted exactly if they are admitted.** -/
theorem accept_first_eq_ok_iff {r : Reassembly} {f : Frame} (h : f.header.type = .first) :
    (r.accept f).2 = .ok none ↔ r.Begins f := by
  constructor
  · intro hok
    have hrule := r.rule_accept f
    generalize (r.accept f).2 = x at hrule hok
    generalize (r.accept f).1.draft f.header.key = d at hrule
    generalize hbefore : r.draft f.header.key = before at hrule
    cases hrule with
    | opens htype hlength hsize hroom => exact ⟨htype, hlength, hsize, hbefore ▸ hroom⟩
    | short | large | full | orphan | overflows => cases hok
    | single htype | control htype | adds htype | completes htype =>
      cases h.symm.trans htype
  · intro hbegins
    exact (accept_of_begins hbegins).2

/-- An event that decides nothing adds to the draft what it brings. -/
theorem draft_after_of_not_decides {r : Reassembly} {k : MessageKey} {e : Event}
    (h : ¬ r.Decides k e) :
    (r.after e).draft k = (r.draft k).map fun d => { d with bytes := d.bytes ++ e.brings k } := by
  have hsame : ∀ {d : Option Draft}, d = d.map fun d => { d with bytes := d.bytes ++ [] } := by
    intro d
    cases d with
    | none => rfl
    | some d =>
      rw [Option.map_some, List.append_nil]
  cases e with
  | discard session =>
    show (r.discardSession session).draft k = _
    have hother : ¬ k.session = session := h
    rw [draft_discardSession, if_neg hother]
    exact hsame
  | frame f =>
    show (r.accept f).1.draft k = _
    by_cases hk : f.header.key = k
    · subst hk
      have hnot : ¬ r.Begins f ∧ ¬ r.Ends f := not_or.mp fun hdecides => h ⟨rfl, hdecides⟩
      have hrule := r.rule_accept f
      generalize (r.accept f).1.draft f.header.key = d at hrule ⊢
      generalize (r.accept f).2 = x at hrule
      generalize hbefore : r.draft f.header.key = before at hrule ⊢
      -- only a frame that extends the draft brings anything
      cases hrule with
      | single htype | control htype | short htype | large htype | full htype =>
        rw [brings_of_type_ne (by rw [htype]; exact nofun)]
        exact hsame
      | orphan => rfl
      | opens htype hlength hsize hroom =>
        exact absurd ⟨htype, hlength, hsize, hbefore ▸ hroom⟩ hnot.1
      | overflows htype hsize => exact absurd ⟨htype, _, hbefore, Or.inl hsize⟩ hnot.2
      | completes htype hsize hdetail => exact absurd ⟨htype, _, hbefore, Or.inr hdetail⟩ hnot.2
      | adds htype =>
        have hbrings : (Event.frame f).brings f.header.key = f.payload := if_pos ⟨htype, rfl⟩
        rw [hbrings]
        rfl
    · have hnothing : (Event.frame f).brings k = [] := if_neg fun hf => hk hf.2
      rw [draft_accept_of_ne r hk, hnothing]
      exact hsame

/-- A frame that ends a draft leaves none. -/
theorem draft_accept_of_ends {r : Reassembly} {f : Frame} (h : r.Ends f) :
    (r.accept f).1.draft f.header.key = none := by
  obtain ⟨d, hd, hends⟩ := h.draft
  have hrule := r.rule_accept f
  rw [hd] at hrule
  by_cases hsize : r.maxMessageSize < d.bytes.length + f.payload.length
  · exact (hrule.unique (.overflows h.type hsize)).1
  · have hdetail := hends.resolve_left hsize
    exact (hrule.unique (.completes h.type (Nat.not_lt.mp hsize) hdetail)).1

/-! ## Histories -/

/-- What events make of a fresh reassembly. -/
def history (maxMessageSize maxOpen : Nat) (events : List Event) : Reassembly :=
  events.foldl after { maxMessageSize, maxOpen }

section

variable {maxMessageSize maxOpen : Nat} {events : List Event} {k : MessageKey} {first : Frame}
  {since : List Event}

theorem history_append_singleton (events : List Event) (e : Event) :
    history maxMessageSize maxOpen (events ++ [e])
      = (history maxMessageSize maxOpen events).after e := List.foldl_concat ..

theorem limits_history (events : List Event) :
    (history maxMessageSize maxOpen events).maxMessageSize = maxMessageSize
      ∧ (history maxMessageSize maxOpen events).maxOpen = maxOpen := by
  induction events using List.reverseRecOn with
  | nil => exact ⟨rfl, rfl⟩
  | append_singleton events e ih =>
    rw [history_append_singleton]
    cases e with
    | discard session => exact ih
    | frame f =>
      obtain ⟨hsize, hopen⟩ := limits_accept (history maxMessageSize maxOpen events) f
      exact ⟨hsize.trans ih.1, hopen.trans ih.2⟩

/-- The last event that has decided about the key is a first frame that was admitted. -/
def LastBegun (maxMessageSize maxOpen : Nat) (events : List Event) (k : MessageKey) (first : Frame)
    (since : List Event) : Prop :=
  ∃ before, events = before ++ .frame first :: since ∧ first.header.key = k
    ∧ (history maxMessageSize maxOpen before).Begins first
    ∧ ∀ mid e rest, since = mid ++ e :: rest →
        ¬ (history maxMessageSize maxOpen (before ++ .frame first :: mid)).Decides k e

/-- With one more event, the last one that has decided is that event, or it is the same as before. -/
theorem lastBegun_append_singleton {e : Event} :
    LastBegun maxMessageSize maxOpen (events ++ [e]) k first since
      ↔ (since = [] ∧ e = .frame first ∧ first.header.key = k
          ∧ (history maxMessageSize maxOpen events).Begins first)
        ∨ ∃ mid, since = mid ++ [e] ∧ LastBegun maxMessageSize maxOpen events k first mid
          ∧ ¬ (history maxMessageSize maxOpen events).Decides k e := by
  constructor
  · rintro ⟨before, hevents, hkey, hbegins, hsince⟩
    rcases List.eq_nil_or_concat' since with rfl | ⟨mid, last, rfl⟩
    · obtain ⟨rfl, hlast⟩ := List.append_inj' hevents rfl
      cases hlast
      exact Or.inl ⟨rfl, rfl, hkey, hbegins⟩
    · rw [← List.cons_append, ← List.append_assoc] at hevents
      obtain ⟨rfl, hlast⟩ := List.append_inj' hevents rfl
      cases hlast
      refine Or.inr ⟨mid, rfl, ⟨before, rfl, hkey, hbegins, ?_⟩, hsince mid e [] rfl⟩
      intro mid' e' rest hmid
      exact hsince mid' e' (rest ++ [e]) (by rw [hmid, List.append_assoc, List.cons_append])
  · rintro (⟨rfl, rfl, hkey, hbegins⟩ | ⟨mid, rfl, ⟨before, rfl, hkey, hbegins, hmid⟩, hlast⟩)
    · exact ⟨events, rfl, hkey, hbegins, fun mid e rest h => absurd h (by simp)⟩
    · refine ⟨before, by rw [List.append_assoc, List.cons_append], hkey, hbegins, ?_⟩
      intro mid' e' rest hsplit
      rcases List.eq_nil_or_concat' rest with rfl | ⟨rest', last, rfl⟩
      · obtain ⟨rfl, hsame⟩ := List.append_inj' hsplit rfl
        cases hsame
        exact hlast
      · rw [← List.cons_append, ← List.append_assoc] at hsplit
        exact hmid mid' e' rest' (List.append_inj' hsplit rfl).1

/-- **A key has a draft exactly if the last event that has decided about it is an admitted first frame.** The
    induction takes events off the end of the history. -/
theorem draft_history_eq_some_iff {d : Draft} :
    (history maxMessageSize maxOpen events).draft k = some d
      ↔ ∃ first since, LastBegun maxMessageSize maxOpen events k first since
        ∧ d = ⟨first.header, since.flatMap (Event.brings k)⟩ := by
  induction events using List.reverseRecOn generalizing d with
  | nil =>
    constructor
    · exact nofun
    · rintro ⟨first, since, ⟨before, hevents, -⟩, -⟩
      simp at hevents
  | append_singleton events e ih =>
    rw [history_append_singleton]
    by_cases hdecides : (history maxMessageSize maxOpen events).Decides k e
    · -- the event is the last one that has decided
      have hlast : (∃ first since, LastBegun maxMessageSize maxOpen (events ++ [e]) k first since
          ∧ d = ⟨first.header, since.flatMap (Event.brings k)⟩)
          ↔ ∃ first, e = .frame first ∧ first.header.key = k
            ∧ (history maxMessageSize maxOpen events).Begins first ∧ d = ⟨first.header, []⟩ := by
        constructor
        · rintro ⟨first, since, hbegun, rfl⟩
          rcases lastBegun_append_singleton.mp hbegun with ⟨rfl, he, hkey, hbegins⟩ | ⟨-, -, -, hnot⟩
          · exact ⟨first, he, hkey, hbegins, rfl⟩
          · exact absurd hdecides hnot
        · rintro ⟨first, he, hkey, hbegins, rfl⟩
          exact ⟨first, [], lastBegun_append_singleton.mpr (Or.inl ⟨rfl, he, hkey, hbegins⟩), rfl⟩
      rw [hlast]
      cases e with
      | discard session =>
        show ((history maxMessageSize maxOpen events).discardSession session).draft k = some d ↔ _
        have hsession : k.session = session := hdecides
        rw [draft_discardSession, if_pos hsession]
        exact ⟨nofun, nofun⟩
      | frame f =>
        show ((history maxMessageSize maxOpen events).accept f).1.draft k = some d ↔ _
        obtain ⟨rfl, hbegins | hends⟩ := hdecides
        · rw [(accept_of_begins hbegins).1]
          constructor
          · rintro ⟨⟩
            exact ⟨f, rfl, rfl, hbegins, rfl⟩
          · rintro ⟨first, hf, -, -, rfl⟩
            cases hf
            rfl
        · rw [draft_accept_of_ends hends]
          refine ⟨nofun, ?_⟩
          rintro ⟨first, hf, -, hbegins, -⟩
          cases hf
          cases hbegins.type.symm.trans hends.type
    · rw [draft_after_of_not_decides hdecides, Option.map_eq_some_iff]
      constructor
      · rintro ⟨d₀, hd₀, rfl⟩
        obtain ⟨first, since, hbegun, rfl⟩ := ih.mp hd₀
        refine ⟨first, since ++ [e],
          lastBegun_append_singleton.mpr (Or.inr ⟨since, rfl, hbegun, hdecides⟩), ?_⟩
        rw [List.flatMap_append, List.flatMap_singleton]
      · rintro ⟨first, since, hbegun, rfl⟩
        rcases lastBegun_append_singleton.mp hbegun with ⟨rfl, rfl, hkey, hbegins⟩ | ⟨mid, rfl, hbegun, -⟩
        · exact absurd ⟨hkey, Or.inl hbegins⟩ hdecides
        · refine ⟨_, ih.mpr ⟨first, mid, hbegun, rfl⟩, ?_⟩
          rw [List.flatMap_append, List.flatMap_singleton]

/-- **Every key has an automaton of its own.** After any events on a fresh reassembly, a key has a draft
    exactly if the last event that has decided about it is a first frame that was admitted, and the draft is
    what the consecutive frames since then have brought. The next frame of the key does what the one rule says
    that applies to it; frames of other keys leave the draft alone, and a discard takes it if it is of that
    session. -/
theorem automaton_of_key (maxMessageSize maxOpen : Nat) (events : List Event) (k : MessageKey) :
    let r := history maxMessageSize maxOpen events
    (r.maxMessageSize = maxMessageSize ∧ r.maxOpen = maxOpen)
      ∧ (∀ d, r.draft k = some d ↔ ∃ first since,
          LastBegun maxMessageSize maxOpen events k first since
            ∧ d = ⟨first.header, since.flatMap (Event.brings k)⟩)
      ∧ (∀ f : Frame, f.header.type = .first → ((r.accept f).2 = .ok none ↔ r.Begins f))
      ∧ (∀ f : Frame, f.header.key = k → ∀ d x,
          r.Rule f (r.draft k) d x ↔ (r.accept f).1.draft k = d ∧ (r.accept f).2 = x)
      ∧ (∀ f : Frame, f.header.key ≠ k → (r.accept f).1.draft k = r.draft k)
      ∧ ∀ session, (r.discardSession session).draft k
          = if k.session = session then none else r.draft k := by
  intro r
  refine ⟨limits_history events, fun d => draft_history_eq_some_iff,
    fun f hf => accept_first_eq_ok_iff hf, ?_, fun f hf => draft_accept_of_ne r hf,
    fun session => draft_discardSession r session k⟩
  rintro f rfl d x
  constructor
  · exact fun hrule => (r.rule_accept f).unique hrule
  · rintro ⟨rfl, rfl⟩
    exact r.rule_accept f

end

end Reassembly

end HeadLink
