import HeadLink.Proofs.Histories

/-!
# The sizes of outgoing frames

Everything that is handed to the transport is one whole frame: a header, and as much payload as the header
announces. The MTU is to bound it. Frames of messages are cut to measure. Control frames are not, but most of them
are a header and nothing else, and valid settings leave room for more than a header. What is left are the frames that
end a service. They carry its token, and from version 2 on they carry it twice, in the header and in the payload,
which makes them 16 bytes long. The MTU of valid settings may be less than that.

The versions of sessions come from the headers that arrive. So the frames that are built for them fit the layout as
long as the headers that arrive do, and those that a deframer lets through do
(`Endpoint.Ordered.fits_of_mem_arrivals`).

## Contents
- **Whole frames.** `Frame.IsWhole`.
- **Sizes.** `Frame.IsLongEnd`, `Frame.IsControl.length_encode`, `Envelope.length_encode_le`.
- **Endpoints.** `Endpoint.Steady`: what has been accepted is in order, and versions fit into headers. Moves keep it
  (`Endpoint.Move.steady`), and hence histories.
- **The bound.** `frames_within_mtu`, and a run on which a frame is too long (`end_frame_exceeds_mtu`).
-/

namespace HeadLink

/-! ## Whole frames -/

/-- The bytes of the frame are read back as its header and, after it, as much payload as it announces. -/
structure Frame.IsWhole (f : Frame) : Prop where
  decode : Header.decode? f.encode = .ok (f.header, f.payload)
  length_payload : f.payload.length = f.header.size.toNat

theorem Frame.Fits.isWhole {f : Frame} {ceiling : UInt32} (h : f.Fits ceiling) : f.IsWhole where
  decode := decode?_encode h.header f.payload
  length_payload := h.size.symm

/-! ## Sizes -/

/-- The frame ends a service in a version whose header names the token of the service as well. -/
def Frame.IsLongEnd (f : Frame) : Prop := f.header.controlType? = some .endService ∧ 2 ≤ f.header.version

instance (f : Frame) : Decidable f.IsLongEnd := inferInstanceAs (Decidable (_ ∧ _))

namespace Frame.IsControl

variable {f : Frame}

theorem controlType?_eq_iff (h : f.IsControl) {type : ControlType} :
    f.header.controlType? = some type ↔ f.header.detail = type.code := by
  unfold Header.controlType?
  rw [if_pos h.type, ControlType.ofCode?_eq_some_iff]

/-- A control frame that carries its token twice is 16 bytes long, and all others are no longer than a header. -/
theorem length_encode (h : f.IsControl) :
    (f.IsLongEnd → f.encode.length = 16) ∧ (¬ f.IsLongEnd → f.encode.length ≤ 12) := by
  unfold IsLongEnd
  rw [h.controlType?_eq_iff, Frame.length_encode, h.length_payload, Header.length]
  constructor
  · rintro ⟨hend, hv⟩
    rw [if_pos hend, headerLength_of_le hv]
  · intro hnot
    by_cases hend : f.header.detail = ControlType.endService.code
    · -- the shorter header leaves room for the token
      rw [if_pos hend, headerLength_of_not_le fun hv => hnot ⟨hend, hv⟩]
    · rw [if_neg hend]
      exact headerLength_le_twelve _

end Frame.IsControl

/-- A frame of a message takes a header and the budget at most. -/
theorem Envelope.length_encode_le {e : Envelope} {payload : Bytes} {budget : Nat} {frames : List Frame}
    (h : e.segments payload budget = .ok frames) :
    ∀ f ∈ frames, f.header.type ≠ .control ∧ f.encode.length ≤ headerLength e.version + budget := by
  intro f hf
  refine ⟨Envelope.type_ne_control h f hf, ?_⟩
  obtain ⟨type, detail, part, rfl, hpart⟩ := Envelope.exists_of_mem_segments h hf
  rw [Frame.length_encode]
  exact Nat.add_le_add_left hpart _

/-- A frame of a message is no longer than the MTU, if that leaves room for a header. -/
theorem Submission.length_encode_le {σ : Type} {env : Environment σ} (hmtu : 12 < env.settings.mtu) {s : Submission}
    {message : UInt32} {frames : List Frame} (h : s.frames? env message = .ok frames) :
    ∀ f ∈ frames, f.header.type ≠ .control ∧ f.encode.length ≤ env.settings.mtu := by
  intro f hf
  obtain ⟨htype, hlength⟩ := Envelope.length_encode_le h f hf
  have hheader := headerLength_le_twelve s.version
  refine ⟨htype, Nat.le_trans hlength ?_⟩
  show headerLength s.version + (env.settings.mtu - headerLength s.version) ≤ _
  omega

/-! ## Endpoints -/

namespace Endpoint

variable {σ : Type} {env : Environment σ} {e e' : Endpoint σ} {log : List Accepted} {past : List Arrival}

/-- The headers that arrive fit the layout. -/
def Legible (arrivals : List Arrival) : Prop := ∀ f, .ok f ∈ arrivals → f.header.Fits

/-- What the deframer lets through fits the layout. -/
theorem Ordered.fits_of_mem_arrives (h : e.Ordered env log) (a : Action) : Legible (e.arrives a) := by
  intro f hf
  cases a with
  | receive chunk => exact (Deframer.fits_of_mem_push h.deframer hf).header
  | send | startSession | startService | endService | sleep | close => cases hf

/-- **The headers that arrive on a run fit the layout.** -/
theorem Ordered.fits_of_mem_arrivals (h : e.Ordered env log) (actions : List Action) :
    Legible (e.arrivals env actions) := by
  induction actions generalizing e log with
  | nil => exact nofun
  | cons a actions ih =>
    intro f hf
    rcases List.mem_append.mp hf with hf | hf
    · exact h.fits_of_mem_arrives a f hf
    · exact ih (h.perform a) f hf

/-- What has been accepted is in order, and versions fit into headers. Of the deframer nothing is said. -/
structure Steady (env : Environment σ) (e : Endpoint σ) : Prop where
  outbox : ∃ log, e.link.outbox.Ordered env log
  version : ValidVersion e.version

theorem Ordered.steady (h : e.Ordered env log) : e.Steady env := ⟨⟨log, h.outbox⟩, h.version⟩

/-- With a fresh deframer the endpoint is in order. -/
theorem Steady.ordered (h : e.Steady env) :
    ∃ log, ({ e with deframer := { version := e.version, ceiling := 0 } } : Endpoint σ).Ordered env log := by
  obtain ⟨log, houtbox⟩ := h.outbox
  exact ⟨log, houtbox, h.version, Deframer.sound_of_header_nil rfl⟩

/-- A call of the application does not depend on the deframer. -/
theorem perform_deframer {a : Action} (own : ∀ chunk, a ≠ .receive chunk) (d : Deframer) :
    ({ e with deframer := d } : Endpoint σ).perform env a = { e.perform env a with deframer := d } := by
  cases a with
  | send m =>
    have hsame : ({ e with deframer := d } : Endpoint σ).outbound env m = e.outbound env m := rfl
    cases hx : e.outbound env m <;> simp only [perform, send, hsame, hx]
  | startService service session =>
    simp only [perform, startService]
    split <;> rfl
  | receive chunk => exact absurd rfl (own chunk)
  | startSession session | endService service session | sleep ms | close => rfl

/-- **Moves keep an endpoint steady**, as long as the headers that arrive fit the layout. -/
theorem Move.steady {new : List Arrival} (move : Move env e new e') (hnew : Legible new) (h : e.Steady env) :
    e'.Steady env := by
  obtain ⟨log, hordered⟩ := h.ordered
  cases move with
  | call a own =>
    have hperform := (hordered.perform a).steady
    rw [perform_deframer own] at hperform
    exact ⟨hperform.outbox, hperform.version⟩
  | feed d => exact ⟨h.outbox, h.version⟩
  | arrive a =>
    have harrival := (hordered.onArrival fun f hf => hnew f (hf ▸ List.mem_cons_self)).steady
    rw [onArrival_deframer] at harrival
    exact ⟨harrival.outbox, harrival.version⟩
  | work => exact ⟨⟨log, hordered.outbox.steps (Link.work_works env e.link).steps⟩, h.version⟩
  | pass ms =>
    exact ⟨⟨log, hordered.outbox.steps
      (Link.wakeDue_works env { e.link with now := e.link.now + ms }).steps⟩, h.version⟩

/-- **Histories keep an endpoint steady.** -/
theorem History.steady (history : History env e past e') (hpast : Legible past) (h : e.Steady env) :
    e'.Steady env := by
  induction history with
  | refl => exact h
  | tail _ move ih =>
    exact move.steady (fun f hf => hpast f (List.mem_append_right _ hf))
      (ih fun f hf => hpast f (List.mem_append_left _ hf))

/-- **What a steady endpoint has handed over is whole**, and no longer than the MTU unless it ends a service. -/
theorem Steady.handed (hrules : env.settings.Rules) (h : e.Steady env) {w : Written} (hw : w ∈ e.link.handed) :
    w.frame.IsWhole ∧ (w.frame.IsLongEnd → w.frame.encode.length = 16)
      ∧ (¬ w.frame.IsLongEnd → w.frame.encode.length ≤ env.settings.mtu) := by
  obtain ⟨log, houtbox⟩ := h.outbox
  obtain ⟨queued, blocks, hqueued, htraced⟩ := houtbox.traced
  rcases htraced.of_mem_handed houtbox.locked hw with hcontrol | ⟨s, message, frames, hs, hframes, hf⟩
  · obtain ⟨hlong, hshort⟩ := hcontrol.length_encode
    exact ⟨hcontrol.fits.isWhole, hlong, fun hnot => Nat.le_of_lt (Nat.lt_of_le_of_lt (hshort hnot) hrules.mtu)⟩
  · have hfits := fits_of_frames? hqueued hrules.framePayload hs hframes w.frame hf
    obtain ⟨htype, hlength⟩ := Submission.length_encode_le hrules.mtu hframes w.frame hf
    refine ⟨hfits.isWhole, fun hend => ?_, fun _ => hlength⟩
    have hother : w.frame.header.controlType? = none := if_neg htype
    cases hother.symm.trans hend.1

end Endpoint

/-! ## The bound -/

/-- **All that is handed over is whole frames within the MTU**, but for the long frames that end a service. All runs
    are histories in which the headers that arrive fit the layout. At every moment of every such history, what was
    handed to the transport is whole frames; those that end a service in a version from 2 on are 16 bytes long, and
    all others are no longer than the MTU. -/
theorem frames_within_mtu {σ : Type} {env : Environment σ} {carrier : σ} {e : Endpoint σ}
    (hopen : Endpoint.open? env carrier = .ok e) :
    (∀ actions, Endpoint.History env e (e.arrivals env actions) (e.run env actions).1
        ∧ Endpoint.Legible (e.arrivals env actions))
      ∧ ∀ past e', Endpoint.History env e past e' → Endpoint.Legible past → ∀ w ∈ e'.link.handed,
        w.frame.IsWhole ∧ (w.frame.IsLongEnd → w.frame.encode.length = 16)
          ∧ (¬ w.frame.IsLongEnd → w.frame.encode.length ≤ env.settings.mtu) := by
  have hfresh := Endpoint.Ordered.fresh hopen
  constructor
  · exact fun actions => ⟨Endpoint.history_run actions e, hfresh.fits_of_mem_arrivals actions⟩
  · intro past e' history hpast w hw
    exact (history.steady hpast hfresh.steady).handed (Endpoint.eq_of_open? hopen).1 hw

/-- The usual settings but for the MTU, over a transport that never fails and takes no time. -/
def faultless (mtu : Nat) : Environment Nat where
  settings := { mtu }
  transport := .numbered 0 fun _ => none

/-- The peer starts the rpc service of a session in version 2, a message is sent, another service is asked for, and
    the first one is to end. -/
def chores : List Action :=
  [.receive [0x20, 0x07, 0x02, 1, 0, 0, 0, 0, 0, 0, 0, 5],
    .send { version := 1, service := .rpc, session := 1, body := { data := [1, 2, 3, 4] } },
    .sleep 1, .startService .nav 1, .endService .rpc 1]

/-- The message is written in three frames of the full length. The frame that starts a service is a header, and the
    one that ends a service is a long one. -/
theorem frames_within_mtu_chores :
    ∃ e, Endpoint.open? (faultless 20) 0 = .ok e
      ∧ ((e.run (faultless 20) chores).1.link.handed.map fun w => w.frame.encode.length) = [20, 20, 20, 12, 16]
      ∧ ∀ w ∈ (e.run (faultless 20) chores).1.link.handed, w.frame.IsWhole
        ∧ (w.frame.IsLongEnd → w.frame.encode.length = 16)
        ∧ (¬ w.frame.IsLongEnd → w.frame.encode.length ≤ 20) := by
  have hopen : Endpoint.open? (faultless 20) 0 = .ok _ := rfl
  obtain ⟨hruns, hframes⟩ := frames_within_mtu hopen
  obtain ⟨history, hlegible⟩ := hruns chores
  exact ⟨_, rfl, by decide +kernel, hframes _ _ history hlegible⟩

/-- **A frame that ends a service may exceed the MTU**, although the settings break no rule. -/
theorem end_frame_exceeds_mtu :
    ∃ e, Endpoint.open? (faultless 15) 0 = .ok e
      ∧ ∃ w ∈ (e.run (faultless 15) [.receive [0x20, 0x07, 0x02, 1, 0, 0, 0, 0, 0, 0, 0, 5],
          .endService .rpc 1]).1.link.handed, (faultless 15).settings.mtu < w.frame.encode.length := by
  refine ⟨_, rfl, ?_⟩
  decide +kernel

end HeadLink
