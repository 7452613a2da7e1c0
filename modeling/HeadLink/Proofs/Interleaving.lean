import HeadLink.Proofs.Drafts

/-!
# Messages whose frames are mixed on the wire

The frames of any number of messages may come in any order in which each message keeps its own: what is put
together is each message, with its last frame, and nothing else. A message meets only its own draft, because
the frames of the others have other keys. It meets the others only when its first frame asks for room, and
there the drafts are the messages that have frames on both sides of that point.

The invariant says where each message stands (`Sending.Awaits`): all of its frames are still to come, or its
consecutive frames from some part on, or none. Its draft holds the part of the payload that has come.

## Contents
- **Sendings.** `Sending` is a payload with its frames; `Awaits.accept` is what the next frame does.
- **Wires.** `Interleaves`, `brought`; `Follows` is the invariant over all messages.
- **Nothing is lost, mixed or duplicated.** `interleaved_delivery`.
-/

namespace HeadLink

/-! ## Sendings -/

/-- A payload that is sent within a budget, and the frames that it is split into. -/
structure Sending where
  envelope : Envelope
  payload : Bytes
  budget : Nat
  frames : List Frame
  split : envelope.segments payload budget = .ok frames

/-- The word of an announcement is the size that a first frame declares. -/
theorem Envelope.declaredSize_announcement (e : Envelope) {size : Nat} (parts : Nat)
    (hcount : size + headerLength e.version < Word.count) :
    8 ≤ (e.announcement size parts).length
      ∧ (e.frame .first 0 (e.announcement size parts)).declaredSize = size := by
  have hread := Reassembly.announcedLength_announcement e parts hcount
  have hdeclared := Reassembly.announcedLength_eq (e.frame .first 0 (e.announcement size parts))
  rw [show (e.frame .first 0 (e.announcement size parts)).payload = e.announcement size parts from rfl,
    hread] at hdeclared
  split at hdeclared
  · rename_i hlength
    exact ⟨hlength, (Option.some.inj hdeclared).symm⟩
  · cases hdeclared

/-- What a payload brings depends only on the version, the service and the session. -/
theorem Reassembly.outcome_congr {h h' : Header} (hversion : h.version = h'.version)
    (hservice : h.service = h'.service) (hsession : h.session = h'.session) (payload : Bytes) :
    outcome h payload = outcome h' payload := by
  unfold outcome Message.ofPayload?
  rw [hversion, hservice, hsession]

namespace Sending

/-- The key of all frames of a message. -/
def key (s : Sending) : MessageKey := s.envelope.key

/-- What the payload brings if it is read in one piece, under the header of the message. -/
def outcome (s : Sending) : Except Fault (Option Message) :=
  Reassembly.outcome (s.envelope.frame .single 0 s.payload).header s.payload

theorem key_of_mem {s : Sending} {f : Frame} (h : f ∈ s.frames) : f.header.key = s.key := by
  obtain ⟨type, detail, part, rfl, -⟩ := Envelope.exists_of_mem_segments s.split h
  rfl

/-- What is still to come of a message, and the draft there is of it. -/
inductive Awaits (s : Sending) : List Frame → Option Draft → Prop
  | all : Awaits s s.frames none
  /-- The rest of the payload, in at least one part; the draft has what came before it. -/
  | parts {parts : List Bytes} {d : Draft} (long : s.budget < s.payload.length) (ne : parts ≠ [])
      (version : d.header.version = s.envelope.version)
      (service : d.header.service = s.envelope.service)
      (session : d.header.session = s.envelope.session)
      (bytes : d.bytes ++ parts.flatten = s.payload) :
      Awaits s (s.envelope.consecutiveFrames parts) (some d)
  | done : Awaits s [] none

/-- A draft is one that something is still to come for. -/
theorem Awaits.ne_nil {s : Sending} {frames : List Frame} {d : Draft} (h : s.Awaits frames (some d)) :
    frames ≠ [] := by
  cases h with
  | parts long ne =>
    rw [← List.length_pos_iff, Envelope.length_consecutiveFrames, List.length_pos_iff]
    exact ne

theorem Awaits.eq_none {s : Sending} {d : Option Draft} (h : s.Awaits [] d) : d = none := by
  cases d with
  | none => rfl
  | some d => exact absurd rfl h.ne_nil

section

variable {s : Sending} {r : Reassembly} {f : Frame} {rest : List Frame}

/-- The first frame brings the message if there is no other, and else begins the draft. -/
theorem awaits_of_frames_eq (hframes : s.frames = f :: rest) (hdraft : r.draft s.key = none)
    (hsize : s.budget < s.payload.length → s.payload.length ≤ r.maxMessageSize)
    (hroom : rest ≠ [] → r.openKeys.ncard < r.maxOpen) :
    s.Awaits rest ((r.accept f).1.draft s.key)
      ∧ (rest = [] → (r.accept f).2 = s.outcome) ∧ (rest ≠ [] → (r.accept f).2 = .ok none) := by
  obtain ⟨hbudget, hcount⟩ := Envelope.bounds_of_segments s.split
  have hsplit := s.split
  rw [Envelope.segments_eq hbudget hcount, hframes] at hsplit
  have hkey : f.header.key = s.key := key_of_mem (by rw [hframes]; exact List.mem_cons_self)
  have hrule := r.rule_accept f
  rw [hkey, hdraft] at hrule
  split at hsplit
  · cases hsplit
    obtain ⟨hnone, hresult⟩ := hrule.unique (.single rfl)
    rw [hnone]
    exact ⟨.done, fun _ => hresult, fun h => absurd rfl h⟩
  · rename_i hlong
    have hlong : s.budget < s.payload.length := Nat.lt_of_not_le hlong
    have hne : s.payload ≠ [] := List.ne_nil_of_length_pos (Nat.zero_lt_of_lt hlong)
    have hpieces : pieces s.budget s.payload ≠ [] := pieces_ne_nil s.budget hne
    have hparts : s.envelope.consecutiveFrames (pieces s.budget s.payload) ≠ [] := by
      rw [← List.length_pos_iff, Envelope.length_consecutiveFrames, List.length_pos_iff]
      exact hpieces
    cases hsplit
    obtain ⟨hlength, hdeclared⟩ :=
      s.envelope.declaredSize_announcement (pieces s.budget s.payload).length hcount
    obtain ⟨hsome, hresult⟩ := hrule.unique
      (.opens rfl hlength (hdeclared.trans_le (hsize hlong)) (Or.inr (hroom hparts)))
    rw [hsome]
    refine ⟨.parts hlong hpieces rfl rfl rfl ?_, fun h => absurd h hparts, fun _ => hresult⟩
    rw [List.nil_append, flatten_pieces]

/-- A consecutive frame adds to the draft, and brings the message if it is the last one. -/
theorem awaits_of_parts {p : Bytes} {ps : List Bytes} {d : Draft}
    (hframes : s.envelope.consecutiveFrames (p :: ps) = f :: rest) (hdraft : r.draft s.key = some d)
    (hlong : s.budget < s.payload.length) (hversion : d.header.version = s.envelope.version)
    (hservice : d.header.service = s.envelope.service)
    (hsession : d.header.session = s.envelope.session)
    (hbytes : d.bytes ++ (p :: ps).flatten = s.payload)
    (hsize : s.budget < s.payload.length → s.payload.length ≤ r.maxMessageSize) :
    s.Awaits rest ((r.accept f).1.draft s.key)
      ∧ (rest = [] → (r.accept f).2 = s.outcome) ∧ (rest ≠ [] → (r.accept f).2 = .ok none) := by
  have hfits : d.bytes.length + p.length ≤ r.maxMessageSize := by
    have hmax := hsize hlong
    rw [← hbytes, List.flatten_cons, List.length_append, List.length_append] at hmax
    omega
  have hrule := r.rule_accept f
  -- only the last part is marked as the last one
  cases ps with
  | nil =>
    cases hframes
    rw [Envelope.key_frame, show s.envelope.key = s.key from rfl, hdraft] at hrule
    obtain ⟨hnone, hresult⟩ := hrule.unique (.completes rfl hfits rfl)
    rw [hnone]
    refine ⟨.done, fun _ => ?_, fun h => absurd rfl h⟩
    rw [List.flatten_singleton] at hbytes
    rw [hresult]
    show Reassembly.outcome d.header (d.bytes ++ p) = _
    rw [hbytes]
    exact Reassembly.outcome_congr hversion hservice hsession s.payload
  | cons q qs =>
    cases hframes
    rw [Envelope.key_frame, show s.envelope.key = s.key from rfl, hdraft] at hrule
    have hmore : Header.moreDetail ≠ 0 := by decide
    obtain ⟨hsome, hresult⟩ := hrule.unique (.adds rfl hfits hmore)
    have hrest : s.envelope.consecutiveFrames (q :: qs) ≠ [] := by
      rw [← List.length_pos_iff, Envelope.length_consecutiveFrames]
      exact Nat.succ_pos _
    rw [hsome]
    refine ⟨.parts hlong (List.cons_ne_nil q qs) hversion hservice hsession ?_,
      fun h => absurd h hrest, fun _ => hresult⟩
    show (d.bytes ++ p) ++ (q :: qs).flatten = s.payload
    rw [List.append_assoc, ← List.flatten_cons]
    exact hbytes

/-- **The next frame of a message** takes it further, and brings it if it is the last one. -/
theorem Awaits.accept (h : s.Awaits (f :: rest) (r.draft s.key))
    (hsize : s.budget < s.payload.length → s.payload.length ≤ r.maxMessageSize)
    (hroom : rest ≠ [] → r.draft s.key = none → r.openKeys.ncard < r.maxOpen) :
    s.Awaits rest ((r.accept f).1.draft s.key)
      ∧ (rest = [] → (r.accept f).2 = s.outcome) ∧ (rest ≠ [] → (r.accept f).2 = .ok none) := by
  generalize hframes : f :: rest = frames at h
  generalize hdraft : r.draft s.key = draft at h
  cases h with
  | all => exact awaits_of_frames_eq hframes.symm hdraft hsize fun hrest => hroom hrest hdraft
  | done => cases hframes
  | @parts parts d long ne version service session bytes =>
    cases parts with
    | nil => exact absurd rfl ne
    | cons p ps =>
      exact awaits_of_parts hframes.symm hdraft long version service session bytes hsize

end

end Sending

/-! ## Wires -/

section

variable {ι : Type} [DecidableEq ι]

/-- The frames of one message on a wire, in the order in which they come. -/
def framesOf (i : ι) (wire : List (ι × Frame)) : List Frame :=
  (wire.filter fun p => p.1 = i).map Prod.snd

/-- A wire mixes the frames of the messages, and keeps the order of each. -/
def Interleaves (messages : ι → Sending) (wire : List (ι × Frame)) : Prop :=
  ∀ i, framesOf i wire = (messages i).frames

/-- The messages with frames both before and after a point of the wire. -/
def underWay (before after : List (ι × Frame)) : Set ι :=
  {i | i ∈ before.map Prod.fst ∧ i ∈ after.map Prod.fst}

/-- What a wire brings: each message with its last frame, and nothing with the others. -/
def brought (messages : ι → Sending) : List (ι × Frame) → List (Except Fault (Option Message))
  | [] => []
  | p :: wire =>
    (if p.1 ∈ wire.map Prod.fst then .ok none else (messages p.1).outcome) :: brought messages wire

theorem framesOf_cons_self (i : ι) (f : Frame) (wire : List (ι × Frame)) :
    framesOf i ((i, f) :: wire) = f :: framesOf i wire := by
  unfold framesOf
  rw [List.filter_cons_of_pos (by simp), List.map_cons]

theorem framesOf_cons_of_ne {i j : ι} (h : j ≠ i) (f : Frame) (wire : List (ι × Frame)) :
    framesOf i ((j, f) :: wire) = framesOf i wire := by
  unfold framesOf
  rw [List.filter_cons_of_neg (by simpa using h)]

theorem framesOf_ne_nil_iff {i : ι} {wire : List (ι × Frame)} :
    framesOf i wire ≠ [] ↔ i ∈ wire.map Prod.fst := by
  unfold framesOf
  rw [Ne, List.map_eq_nil_iff, List.filter_eq_nil_iff]
  simp

theorem mem_framesOf {p : ι × Frame} {wire : List (ι × Frame)} (h : p ∈ wire) :
    p.2 ∈ framesOf p.1 wire :=
  List.mem_map_of_mem (List.mem_filter.mpr ⟨h, decide_eq_true rfl⟩)

theorem underWay_eq_coe (before after : List (ι × Frame)) :
    underWay before after
      = ((before.map Prod.fst).toFinset ∩ (after.map Prod.fst).toFinset : Finset ι) := by
  ext i
  simp [underWay]

/-- A wire that has come up to some point, and what there is of its messages. -/
structure Follows (messages : ι → Sending) (before after : List (ι × Frame)) (r : Reassembly) :
    Prop where
  awaits : ∀ i, (messages i).Awaits (framesOf i after) (r.draft (messages i).key)
  known : ∀ k, r.draft k ≠ none → ∃ i, (messages i).key = k ∧ i ∈ before.map Prod.fst

namespace Follows

variable {messages : ι → Sending} {before after : List (ι × Frame)} {r : Reassembly} {i : ι} {f : Frame}

/-- Before the first frame of a message, what is under way after it is one more than there are drafts. -/
theorem openKeys_lt (h : Follows messages before ((i, f) :: after) r)
    (hnone : r.draft (messages i).key = none) (hafter : i ∈ after.map Prod.fst) {limit : Nat}
    (hlimit : (underWay (before ++ [(i, f)]) after).ncard ≤ limit) : r.openKeys.ncard < limit := by
  have hsub : insert (messages i).key r.openKeys
      ⊆ (fun j => (messages j).key) '' underWay (before ++ [(i, f)]) after := by
    intro k hk
    rcases hk with rfl | hk
    · exact ⟨i, ⟨by simp, hafter⟩, rfl⟩
    · obtain ⟨j, rfl, hj⟩ := h.known k hk
      have hji : i ≠ j := by
        rintro rfl
        exact hk hnone
      have hawaits := h.awaits j
      obtain ⟨d, hd⟩ := Option.ne_none_iff_exists'.mp hk
      rw [framesOf_cons_of_ne hji, hd] at hawaits
      exact ⟨j, ⟨by simp [hj], framesOf_ne_nil_iff.mp hawaits.ne_nil⟩, rfl⟩
  have hfinite : (underWay (before ++ [(i, f)]) after).Finite := by
    rw [underWay_eq_coe]
    exact Finset.finite_toSet _
  have hnot : (messages i).key ∉ r.openKeys := fun hk => hk hnone
  calc r.openKeys.ncard
      < (insert (messages i).key r.openKeys).ncard := by
        rw [Set.ncard_insert_of_notMem hnot
          ((hfinite.image _).subset ((Set.subset_insert _ _).trans hsub))]
        exact Nat.lt_succ_self _
    _ ≤ ((fun j => (messages j).key) '' underWay (before ++ [(i, f)]) after).ncard :=
        Set.ncard_le_ncard hsub (hfinite.image _)
    _ ≤ (underWay (before ++ [(i, f)]) after).ncard := Set.ncard_image_le hfinite
    _ ≤ limit := hlimit

/-- **One frame.** The message that it belongs to is taken further; the others stay where they are. -/
theorem accept (hkeys : Function.Injective fun j => (messages j).key)
    (hsize : (messages i).budget < (messages i).payload.length →
      (messages i).payload.length ≤ r.maxMessageSize)
    (h : Follows messages before ((i, f) :: after) r) (hkey : f.header.key = (messages i).key)
    (hlimit : (underWay (before ++ [(i, f)]) after).ncard ≤ r.maxOpen) :
    Follows messages (before ++ [(i, f)]) after (r.accept f).1
      ∧ (r.accept f).2 = if i ∈ after.map Prod.fst then .ok none else (messages i).outcome := by
  have hown := h.awaits i
  rw [framesOf_cons_self] at hown
  obtain ⟨hnext, hlast, hmore⟩ := hown.accept hsize fun hrest hnone =>
    h.openKeys_lt hnone (framesOf_ne_nil_iff.mp hrest) hlimit
  refine ⟨⟨?_, ?_⟩, ?_⟩
  · intro j
    by_cases hj : i = j
    · rw [← hj]
      exact hnext
    · have hne : f.header.key ≠ (messages j).key := by
        rw [hkey]
        exact fun heq => hj (hkeys heq)
      have hother := h.awaits j
      rw [framesOf_cons_of_ne hj] at hother
      rw [Reassembly.draft_accept_of_ne r hne]
      exact hother
  · intro k hk
    by_cases hik : (messages i).key = k
    · exact ⟨i, hik, by simp⟩
    · rw [Reassembly.draft_accept_of_ne r (by rwa [hkey])] at hk
      obtain ⟨j, hj, hbefore⟩ := h.known k hk
      exact ⟨j, hj, by simp [hbefore]⟩
  · split
    · rename_i hin
      exact hmore (framesOf_ne_nil_iff.mpr hin)
    · rename_i hout
      exact hlast (not_not.mp fun hne => hout (framesOf_ne_nil_iff.mp hne))

/-- **A whole wire**: what comes before it is generalised in the induction, and so is what has been made of
    it. -/
theorem takeAll (hkeys : Function.Injective fun j => (messages j).key)
    (hsize : ∀ j, (messages j).budget < (messages j).payload.length →
      (messages j).payload.length ≤ r.maxMessageSize)
    (hframes : ∀ p ∈ after, p.2.header.key = (messages p.1).key)
    (hlimit : ∀ mid rest, after = mid ++ rest → (underWay (before ++ mid) rest).ncard ≤ r.maxOpen)
    (h : Follows messages before after r) :
    ∃ r' : Reassembly, r.takeAll (after.map fun p => .ok p.2) = (r', brought messages after)
      ∧ r'.maxMessageSize = r.maxMessageSize ∧ r'.maxOpen = r.maxOpen
      ∧ Follows messages (before ++ after) [] r' := by
  induction after generalizing before r with
  | nil => exact ⟨r, rfl, rfl, rfl, by rwa [List.append_nil]⟩
  | cons p after ih =>
    obtain ⟨i, f⟩ := p
    have hkey : f.header.key = (messages i).key := hframes (i, f) List.mem_cons_self
    obtain ⟨hnext, hresult⟩ := accept hkeys (hsize i) h hkey (hlimit [(i, f)] after rfl)
    obtain ⟨hmax, hopen⟩ := r.limits_accept f
    obtain ⟨r', htake, hmax', hopen', hend⟩ := ih (r := (r.accept f).1)
      (by rwa [hmax]) (fun p hp => hframes p (List.mem_cons_of_mem _ hp))
      (fun mid rest hafter => by
        rw [hopen, List.append_assoc, List.singleton_append]
        exact hlimit ((i, f) :: mid) rest (by rw [hafter, List.cons_append])) hnext
    rw [List.append_assoc, List.singleton_append] at hend
    refine ⟨r', ?_, hmax'.trans hmax, hopen'.trans hopen, hend⟩
    rw [List.map_cons, Reassembly.takeAll_ok, htake, hresult]
    rfl

end Follows

/-! ## Nothing is lost, mixed or duplicated -/

/-- A table without drafts is empty. -/
theorem Reassembly.opened_eq_empty {r : Reassembly} (h : ∀ k, r.draft k = none) : r.opened = ∅ := by
  apply Table.eq_of_entries_eq
  show r.opened.entries = []
  rw [List.eq_nil_iff_forall_not_mem]
  intro e he
  have hnone := h e.1
  unfold draft at hnone
  rw [Table.get?_of_mem he] at hnone
  cases hnone

/-- **Interleaved messages are put together one by one.** Messages with keys of their own are split, and
    their frames come in any order that keeps the order of each message and has no more messages under way
    than there may be. Then each message comes with its last frame, as its payload would in one piece; no other
    frame brings a message or a fault; and nothing is left behind. -/
theorem interleaved_delivery {messages : ι → Sending}
    (hkeys : Function.Injective fun i => (messages i).key) {r : Reassembly} (hempty : r.opened = ∅)
    (hsize : ∀ i, (messages i).budget < (messages i).payload.length →
      (messages i).payload.length ≤ r.maxMessageSize)
    {wire : List (ι × Frame)} (hwire : Interleaves messages wire)
    (hroom : ∀ before after, wire = before ++ after → (underWay before after).ncard ≤ r.maxOpen) :
    r.takeAll (wire.map fun p => .ok p.2) = (r, brought messages wire) := by
  have hnone : ∀ k, r.draft k = none := by
    intro k
    unfold Reassembly.draft
    rw [hempty]
    rfl
  have hstart : Follows messages [] wire r := by
    refine ⟨fun i => ?_, fun k hk => absurd (hnone k) hk⟩
    rw [hwire i, hnone]
    exact .all
  have hframes : ∀ p ∈ wire, p.2.header.key = (messages p.1).key := by
    intro p hp
    exact Sending.key_of_mem (hwire p.1 ▸ mem_framesOf hp)
  have hlimit : ∀ mid rest, wire = mid ++ rest → (underWay ([] ++ mid) rest).ncard ≤ r.maxOpen := hroom
  obtain ⟨r', htake, hmax, hopen, hend⟩ := hstart.takeAll hkeys hsize hframes hlimit
  have hclosed : r'.opened = ∅ := by
    apply Reassembly.opened_eq_empty
    intro k
    by_contra hk
    obtain ⟨i, rfl, -⟩ := hend.known k hk
    exact hk (hend.awaits i).eq_none
  have hsame : r' = r := by
    cases r
    cases r'
    simp_all
  rw [htake, hsame]

end

/-- A call of version 1 in three frames, one of version 2 in four, and a message in one frame that is too
    short to be read. The calls have the same id, which version 1 does not carry. -/
def mixedSendings : Fin 3 → Sending
  | 0 =>
    let e : Envelope := ⟨1, .rpc, 7, 9⟩
    { envelope := e, payload := List.replicate 12 65, budget := 8
      frames := e.frame .first 0 (e.announcement 12 2)
        :: e.consecutiveFrames [List.replicate 8 65, List.replicate 4 65]
      split := by decide +kernel }
  | 1 =>
    let e : Envelope := ⟨2, .rpc, 7, 9⟩
    { envelope := e, payload := List.replicate 20 0, budget := 8
      frames := e.frame .first 0 (e.announcement 20 3)
        :: e.consecutiveFrames [List.replicate 8 0, List.replicate 8 0, List.replicate 4 0]
      split := by decide +kernel }
  | 2 =>
    let e : Envelope := ⟨2, .rpc, 7, 4⟩
    { envelope := e, payload := [1, 2, 3], budget := 8, frames := [e.frame .single 0 [1, 2, 3]]
      split := by decide +kernel }

/-- Their frames, with the calls under way at once and the short message in the middle. -/
def mixedWire : List (Fin 3 × Frame) :=
  ([(0, 0), (1, 0), (1, 1), (2, 0), (0, 1), (1, 2), (0, 2), (1, 3)] : List (Fin 3 × Nat)).flatMap
    fun (i, n) => ((mixedSendings i).frames[n]?.map fun f => (i, f)).toList

theorem interleaves_mixedWire : Interleaves mixedSendings mixedWire := by
  show ∀ i : Fin 3, framesOf i mixedWire = (mixedSendings i).frames
  decide

/-- There are never more than two of them under way. -/
theorem ncard_underWay_mixedWire {before after : List (Fin 3 × Frame)} (h : mixedWire = before ++ after) :
    (underWay before after).ncard ≤ 2 := by
  have hall : ∀ n ≤ 8, (((mixedWire.take n).map Prod.fst).toFinset
      ∩ ((mixedWire.drop n).map Prod.fst).toFinset).card ≤ 2 := by decide
  have hlength : before.length ≤ 8 := by
    have htotal : mixedWire.length = 8 := rfl
    rw [h, List.length_append] at htotal
    omega
  have hcard := hall before.length hlength
  rw [h, List.take_left, List.drop_left] at hcard
  rw [underWay_eq_coe, Set.ncard_coe_finset]
  exact hcard

theorem interleaved_delivery_mixed :
    ({ maxMessageSize := 20, maxOpen := 2 } : Reassembly).takeAll (mixedWire.map fun p => .ok p.2)
      = ({ maxMessageSize := 20, maxOpen := 2 }, brought mixedSendings mixedWire)
    ∧ brought mixedSendings mixedWire = [.ok none, .ok none, .ok none,
        .error (.body (.truncated 3)), .ok none, .ok none,
        .ok (some ⟨1, .rpc, 7, { data := List.replicate 12 65 }⟩),
        .ok (some ⟨2, .rpc, 7, { data := [], bulk := some (List.replicate 8 0) }⟩)] :=
  ⟨interleaved_delivery (by decide) rfl (by decide) interleaves_mixedWire
    fun _ _ h => ncard_underWay_mixedWire h, by decide⟩

end HeadLink
