import OrbitReplay.Proofs.Binary64.Signs
import OrbitReplay.Proofs.Replay.Layout
import OrbitReplay.Proofs.Replay.Position

namespace OrbitReplay

open Scalar

variable {α : Type} [Scalar α]

/-- What the decoder of elements looks at: seven finite entries, the last of them positive. -/
structure Decoder.Readable (raw : List α) : Prop where
  finite : ∀ x ∈ raw.take orbitLength, isFinite x
  mass : ∃ m, raw[6]? = some m ∧ ofNat 0 < m

theorem Decoder.elements_eq_ok_iff [Subtractive α] {orbitType : OrbitType} {date : α}
    {raw : List α} {s : State α} :
    elements orbitType date (.vector raw) = .ok s ↔ Readable raw ∧
      ∃ mass, raw[6]? = some mass ∧
        s = { date, elements := .vector (raw.take 6), mass, orbitType } := by
  have hdata : (Tensor.vector raw).data = raw := rfl
  have hshape : (Tensor.vector raw).shape = [raw.length] := rfl
  rw [elements]
  simp only [hdata, hshape]
  cases hm : raw[6]? with
  | none => exact ⟨fun h ↦ (by cases h), fun ⟨_, _, h, _⟩ ↦ (by cases h)⟩
  | some mass =>
    by_cases hall : (raw.take orbitLength).all isFinite = true
    · have hfinite : ∀ x ∈ raw.take orbitLength, isFinite x := List.all_eq_true.1 hall
      have hmem : mass ∈ raw.take orbitLength :=
        List.mem_of_getElem? (i := 6) (by rw [List.getElem?_take_of_lt (by decide), hm])
      have hnum : mass == mass := number_of_isFinite (hfinite mass hmem)
      have hzero : mass - mass == ofNat 0 := sub_beq_zero (hfinite mass hmem) hnum
      have hzero' : (ofNat 0 : α) == ofNat 0 := beq_trans (beq_symm hzero) hzero
      by_cases hle : mass ≤ ofNat 0
      · have hpos : ¬ ofNat 0 < mass := Scalar.not_lt_of_le hle
        simp only [hall, Bool.not_true, Bool.false_eq_true, if_false, if_pos hle]
        refine ⟨fun h ↦ (by cases h), fun ⟨h, _⟩ ↦ ?_⟩
        obtain ⟨m, hm', hpos'⟩ := h.mass
        rw [hm, Option.some_inj] at hm'
        exact absurd (hm' ▸ hpos') hpos
      · have hpos : ofNat 0 < mass := Scalar.lt_of_not_le hnum hzero' hle
        simp only [hall, Bool.not_true, Bool.false_eq_true, if_false, if_neg hle]
        refine ⟨fun h ↦ ?_, fun ⟨_, m, hm', hs⟩ ↦ ?_⟩
        · cases h
          exact ⟨⟨hfinite, mass, hm, hpos⟩, mass, rfl, rfl⟩
        · cases hm'
          rw [hs]
    · simp only [hall, Bool.not_false, if_true]
      refine ⟨fun h ↦ (by cases h), fun ⟨h, _⟩ ↦ ?_⟩
      exact absurd (List.all_eq_true.2 h.finite) hall

theorem Decoder.Readable.congr {raw raw' : List α}
    (h : raw.take orbitLength = raw'.take orbitLength) (hr : Readable raw) : Readable raw' := by
  have hlast : raw[6]? = raw'[6]? := by
    rw [← List.getElem?_take_of_lt (show 6 < orbitLength by decide), h,
      List.getElem?_take_of_lt (by decide)]
  exact ⟨h ▸ hr.finite, hlast ▸ hr.mass⟩

namespace Replay

open OrbitReplay.Dense (Model Source Settles Brings)

def withSlices (raw : List α) (cs : List Channel) (s : State α) : State α :=
  cs.foldl (fun s c ↦ s.attach c.name (.vector (c.slice raw))) s

omit [Scalar α] in
theorem withSlices_eq (raw : List α) (cs : List Channel) {s : State α}
    (h : (s.additional.names ++ cs.map Channel.name).Nodup) :
    ∃ a : Named (Tensor α), withSlices raw cs s = { s with additional := a } ∧
      a.entries = s.additional.entries ++ cs.map fun c ↦ (c.name, .vector (c.slice raw)) := by
  induction cs generalizing s with
  | nil => exact ⟨s.additional, rfl, (List.append_nil _).symm⟩
  | cons c cs ih =>
    have hnew : c.name ∉ s.additional.names := fun hmem ↦
      (List.nodup_append.1 h).2.2 c.name hmem c.name List.mem_cons_self rfl
    have hentries : (s.attach c.name (.vector (c.slice raw))).additional.entries =
        s.additional.entries ++ [(c.name, .vector (c.slice raw))] := Named.put_of_not_mem hnew _
    have hnames : (s.attach c.name (.vector (c.slice raw))).additional.names =
        s.additional.names ++ [c.name] :=
      (Named.names_insert s.additional c.name _).trans (if_neg hnew)
    obtain ⟨a, ha, he⟩ := ih (s := s.attach c.name (.vector (c.slice raw))) (by
      rw [hnames, List.append_assoc]
      exact h)
    refine ⟨a, ha, ?_⟩
    rw [he, hentries, List.append_assoc]
    rfl

namespace Engine

variable {μ : Type} [Model μ α] {e e₁ : Engine μ α} {date : α} {raw : List α}

theorem stateAt_of_rawAt (h : e.rawAt date = (.ok raw, e₁)) :
    e.stateAt date = (wrap date (e₁.decoder date (.vector raw)), e₁) := by
  rw [stateAt_eq, h]
  rfl

theorem read_of_rawAt (h : e.rawAt date = (.ok raw, e₁)) (c : Channel) :
    e.read c date = (if raw.length < c.stop then
      .error (.fault (.shortRaw date raw.length c.name c.offset c.stop)) else .ok (c.slice raw),
      e₁) := by
  rw [read_eq, h]
  simp only [andThen]
  split <;> rfl

theorem read_of_fits (h : e.rawAt date = (.ok raw, e₁)) {c : Channel} (hc : c.stop ≤ raw.length) :
    e.read c date = (.ok (c.slice raw), e₁) := by
  rw [read_of_rawAt h, if_neg (Nat.not_lt.2 hc)]

/-- Where every channel fits, each read finds the vector that the first query found. -/
theorem attachAll_of_fits (hs : Settles μ) (cs : List Channel) {s : State α}
    (h : (e.rawAt date).1 = .ok raw) (hfit : ∀ c ∈ cs, c.stop ≤ raw.length) :
    ∃ m, attachAll date cs s e = (.ok (withSlices raw cs s), { e with model := m }) ∧
      (({ e with model := m } : Engine μ α).rawAt date).1 = .ok raw := by
  induction cs generalizing s e with
  | nil => exact ⟨e.model, rfl, h⟩
  | cons c cs ih =>
    obtain ⟨m, hraw, hagain⟩ := rawAt_again hs h
    obtain ⟨m', hall, hshown⟩ := ih (s := s.attach c.name (.vector (c.slice raw))) hagain
      fun d hd ↦ hfit d (List.mem_cons_of_mem _ hd)
    refine ⟨m', ?_, hshown⟩
    rw [attachAll_cons, read_of_fits hraw (hfit c List.mem_cons_self)]
    exact hall

theorem fits_of_attachAll (hs : Settles μ) {cs : List Channel} {s s' : State α}
    (h : (e.rawAt date).1 = .ok raw) (hok : (attachAll date cs s e).1 = .ok s') :
    ∀ c ∈ cs, c.stop ≤ raw.length := by
  induction cs generalizing s e with
  | nil => simp
  | cons c cs ih =>
    obtain ⟨m, hraw, hagain⟩ := rawAt_again hs h
    rw [attachAll_cons, read_of_rawAt hraw] at hok
    by_cases hc : raw.length < c.stop
    · rw [if_pos hc] at hok
      cases hok
    · rw [if_neg hc] at hok
      intro d hd
      rcases List.mem_cons.1 hd with rfl | hd
      · exact Nat.not_lt.1 hc
      · exact ih hagain hok d hd

/-- An engine as the library makes them: its decoder reads elements and its channels lie next to
each other. -/
structure Ordinary (e : Engine μ α) : Prop where
  decoder : ∃ orbitType, e.decoder = Decoder.elements orbitType
  layout : e.layout.Tiled

theorem Ordinary.invariant : Invariant (Ordinary (μ := μ) (α := α)) where
  move he _ := ⟨he.decoder, he.layout⟩
  register he name length := by
    rw [register_snd]
    exact ⟨he.decoder, invariant_tiled.register he.layout name length⟩
  clone he hf := by
    have hlayout := invariant_tiled.clone he.layout hf
    obtain ⟨-, -, l, -, rfl⟩ := create_eq_ok_iff.1 hf
    exact ⟨he.decoder, hlayout⟩

structure Splittable (l : Layout) (raw : List α) : Prop where
  length : l.next ≤ raw.length
  readable : Decoder.Readable raw

theorem exists_rawAt_of_propagate {s : State α} (h : (e.propagate date).1 = .ok s) :
    ∃ raw, (e.rawAt date).1 = .ok raw := by
  rw [propagate_eq, stateAt_eq] at h
  rcases hr : e.rawAt date with ⟨f | raw, e'⟩
  · rw [hr] at h
    cases h
  · exact ⟨raw, rfl⟩

variable [Subtractive α]

theorem propagate_of_splittable (hs : Settles μ) (he : e.Ordinary)
    (h : (e.rawAt date).1 = .ok raw) (hr : Splittable e.layout raw) :
    ∃ s m, e.propagate date = (.ok s, { e with model := m }) ∧
      (({ e with model := m } : Engine μ α).rawAt date).1 = .ok raw ∧
      (e.stateAt date).1 = .ok { s with additional := .empty } ∧
      s.date = date ∧ s.elements.data ++ [s.mass] = raw.take orbitLength ∧
      s.additional.entries =
        e.layout.channels.map fun c ↦ (c.name, .vector (c.slice raw)) := by
  obtain ⟨orbitType, hdecoder⟩ := he.decoder
  obtain ⟨mass, hmass, -⟩ := hr.readable.mass
  obtain ⟨m, hraw, hagain⟩ := rawAt_again hs h
  let s₀ : State α := { date, elements := .vector (raw.take 6), mass, orbitType }
  have hstate : e.stateAt date = (.ok s₀, { e with model := m }) := by
    rw [stateAt_of_rawAt hraw, hdecoder,
      Decoder.elements_eq_ok_iff.2 ⟨hr.readable, mass, hmass, rfl⟩]
    rfl
  obtain ⟨a, hslices, hentries⟩ := withSlices_eq raw e.layout.channels (s := s₀) he.layout.nodup
  obtain ⟨m', hall, hshown⟩ := attachAll_of_fits hs e.layout.channels (s := s₀) hagain
    fun c hc ↦ Nat.le_trans (he.layout.tiles.stop_le c hc) hr.length
  refine ⟨{ s₀ with additional := a }, m', ?_, hshown, congrArg Prod.fst hstate, rfl, ?_,
    hentries⟩
  · rw [propagate_eq, hstate, ← hslices]
    exact hall
  · have hlast : raw.take orbitLength = raw.take 6 ++ raw[6]?.toList := List.take_add_one
    rw [hlast, hmass]
    rfl

theorem splittable_of_propagate (hs : Settles μ) (he : e.Ordinary)
    (h : (e.rawAt date).1 = .ok raw) {s : State α} (hok : (e.propagate date).1 = .ok s) :
    Splittable e.layout raw := by
  obtain ⟨orbitType, hdecoder⟩ := he.decoder
  obtain ⟨m, hraw, hagain⟩ := rawAt_again hs h
  rw [propagate_eq, stateAt_of_rawAt hraw] at hok
  cases hdecoded : wrap date (e.decoder date (.vector raw)) with
  | error f =>
    rw [hdecoded] at hok
    cases hok
  | ok s₀ =>
    rw [hdecoded] at hok
    rw [hdecoder, wrap_eq_ok] at hdecoded
    obtain ⟨hread, mass, hmass, -⟩ := Decoder.elements_eq_ok_iff.1 hdecoded
    have hseven : orbitLength ≤ raw.length := (List.getElem?_eq_some_iff.1 hmass).1
    have hfits := fits_of_attachAll hs hagain hok
    exact ⟨he.layout.tiles.le_of_stop_le hseven hfits, hread⟩

omit [Subtractive α] in
theorem readNamed_of_fits (he : e.Ordinary) (h : (e.rawAt date).1 = .ok raw) {c : Channel}
    (hc : c ∈ e.layout.channels) (hfit : c.stop ≤ raw.length) :
    (e.readNamed c.name date).1 = .ok (c.slice raw) := by
  have hraw : e.rawAt date = (.ok raw, (e.rawAt date).2) := Prod.ext h rfl
  rw [readNamed_of_find? _ _ (he.layout.find? hc)]
  exact congrArg Prod.fst (read_of_fits hraw hfit)

theorem propagate_succeeds_iff (hs : Settles μ) (he : e.Ordinary) :
    (∃ s, (e.propagate date).1 = .ok s) ↔ (e.low ≤ date ∧ date ≤ e.high) ∧
      ∃ raw m, Brings (date - e.start) e.model (.ok raw) m ∧ Splittable e.layout raw := by
  constructor
  · rintro ⟨s, hok⟩
    obtain ⟨raw, hraw⟩ := exists_rawAt_of_propagate hok
    obtain ⟨hspan, m, hb, -⟩ := rawAt_eq_ok_iff.1 (Prod.ext hraw rfl)
    exact ⟨hspan, raw, m, hb, splittable_of_propagate hs he hraw hok⟩
  · rintro ⟨hspan, raw, m, hb, hr⟩
    have hraw : e.rawAt date = (.ok raw, { e with model := m }) :=
      rawAt_eq_ok_iff.2 ⟨hspan, m, hb, rfl⟩
    obtain ⟨s, m', hok, -⟩ := propagate_of_splittable hs he (congrArg Prod.fst hraw) hr
    exact ⟨s, congrArg Prod.fst hok⟩

structure Splits (e : Engine μ α) (date : α) : Prop where
  succeeds : (∃ s, (e.propagate date).1 = .ok s) ↔ (e.low ≤ date ∧ date ≤ e.high) ∧
    ∃ raw m, Brings (date - e.start) e.model (.ok raw) m ∧ Splittable e.layout raw
  lossless {s : State α} {raw : List α} {m : μ} : (e.propagate date).1 = .ok s →
    Brings (date - e.start) e.model (.ok raw) m →
    s.date = date ∧ s.additional.names = e.layout.channels.map Channel.name ∧
      s.elements.data ++ [s.mass] ++ s.additional.entries.flatMap (·.2.data) =
        raw.take e.rawLength
  /-- Each channel reads the same on its own, before the propagation and after it. -/
  channels {s : State α} {c : Channel} : (e.propagate date).1 = .ok s → c ∈ e.layout.channels →
    ∃ xs, s.attached c.name = .ok (.vector xs) ∧ (e.readNamed c.name date).1 = .ok xs ∧
      ((e.propagate date).2.readNamed c.name date).1 = .ok xs
  rest {s : State α} : (e.propagate date).1 = .ok s →
    (e.stateAt date).1 = .ok { s with additional := .empty }
  /-- Entries of channels, and entries behind all channels, have no say in whether it succeeds. -/
  blind {n m m' : μ} {raw raw' : List α} : Brings (date - e.start) e.model (.ok raw) m →
    Brings (date - e.start) n (.ok raw') m' → raw.take orbitLength = raw'.take orbitLength →
    e.rawLength ≤ raw.length → e.rawLength ≤ raw'.length →
    ((∃ s, (e.propagate date).1 = .ok s) ↔
      ∃ s, (({ e with model := n } : Engine μ α).propagate date).1 = .ok s)

theorem Ordinary.splits (hs : Settles μ) (he : e.Ordinary) (date : α) : e.Splits date where
  succeeds := propagate_succeeds_iff hs he
  lossless := by
    intro s raw m hok hb
    obtain ⟨raw', hraw⟩ := exists_rawAt_of_propagate hok
    obtain ⟨-, m', hb', -⟩ := rawAt_eq_ok_iff.1 (Prod.ext hraw rfl)
    cases (hb.unique hb').1
    have hr := splittable_of_propagate hs he hraw hok
    obtain ⟨s', m'', hprop, -, -, hdate, hhead, hentries⟩ := propagate_of_splittable hs he hraw hr
    rw [hprop] at hok
    cases hok
    refine ⟨hdate, ?_, ?_⟩
    · rw [Named.names, hentries, List.map_map]
      rfl
    · have hslices : s.additional.entries.flatMap (·.2.data) =
          (raw.drop orbitLength).take (e.layout.next - orbitLength) := by
        rw [← he.layout.tiles.flatMap_slice raw, hentries, List.flatMap_map]
        rfl
      rw [hhead, hslices, ← List.take_add, Nat.add_sub_cancel' he.layout.tiles.le]
      rfl
  channels := by
    intro s c hok hc
    obtain ⟨raw, hraw⟩ := exists_rawAt_of_propagate hok
    have hr := splittable_of_propagate hs he hraw hok
    obtain ⟨s', m, hprop, hafter, -, -, -, hentries⟩ := propagate_of_splittable hs he hraw hr
    rw [hprop] at hok
    cases hok
    have hfit : c.stop ≤ raw.length := Nat.le_trans (he.layout.tiles.stop_le c hc) hr.length
    have hmem : (c.name, Tensor.vector (c.slice raw)) ∈ s.additional.entries := by
      rw [hentries]
      exact List.mem_map_of_mem (f := fun c ↦ (c.name, Tensor.vector (c.slice raw))) hc
    have hafter' : ({ e with model := m } : Engine μ α).Ordinary := ⟨he.decoder, he.layout⟩
    refine ⟨c.slice raw, ?_, readNamed_of_fits he hraw hc hfit, ?_⟩
    · rw [State.attached, Named.get?_of_mem hmem]
    · rw [hprop]
      exact readNamed_of_fits hafter' hafter hc hfit
  rest := by
    intro s hok
    obtain ⟨raw, hraw⟩ := exists_rawAt_of_propagate hok
    have hr := splittable_of_propagate hs he hraw hok
    obtain ⟨s', m, hprop, -, hstate, -⟩ := propagate_of_splittable hs he hraw hr
    rw [hprop] at hok
    cases hok
    exact hstate
  blind := by
    intro n m m' raw raw' hb hb' htake hlen hlen'
    have hother : ({ e with model := n } : Engine μ α).Ordinary := ⟨he.decoder, he.layout⟩
    rw [propagate_succeeds_iff hs he, propagate_succeeds_iff hs hother]
    refine and_congr_right fun _ ↦ ⟨fun ⟨_, _, hb₁, hr⟩ ↦ ?_, fun ⟨_, _, hb₁, hr⟩ ↦ ?_⟩
    · cases (hb.unique hb₁).1
      exact ⟨raw', m', hb', hlen', hr.readable.congr htake⟩
    · cases (hb'.unique hb₁).1
      exact ⟨raw, m, hb, hlen, hr.readable.congr htake.symm⟩

end Engine

/-- Whatever is asked of an engine over the model and of the clones made of it, each of them splits
the vectors of every date. -/
def SplitsVectors [Model μ α] (model : μ) : Prop :=
  ∀ (start low high : α) (orbitType : OrbitType) (channels : List (String × Int))
    (e : Engine μ α),
    Engine.create start low high (.elements orbitType) model channels = .ok e →
    ∀ (rs : List (Request α)) (i : Nat) (used : Engine μ α),
      ((Session.ofEngine e).run rs).engine? i = some used → ∀ date, used.Splits date

theorem splitsVectors_of_settles [Subtractive α] {μ : Type} [Model μ α] (hs : Settles μ)
    (model : μ) : SplitsVectors model := by
  intro start low high orbitType channels e hcreate rs i used hused date
  obtain ⟨-, -, l, hl, rfl⟩ := Engine.create_eq_ok_iff.1 hcreate
  have hfirst : Engine.Ordinary (⟨start, low, high, .elements orbitType, model, l⟩ : Engine μ α) :=
    ⟨⟨orbitType, rfl⟩, Layout.tiled_of_registerAll hl⟩
  have heach := (Session.each_ofEngine hfirst).run (.ofInvariant Engine.Ordinary.invariant) rs
  exact (heach.engine hused).splits hs date

/-- Propagation loses nothing of a vector, adds nothing to it and mixes nothing up. -/
theorem propagate_splits [Subtractive α] :
    (∀ (μ : Type) [Model μ α], Settles μ → ∀ model : μ, SplitsVectors model) ∧
      ∀ model : Source α, SplitsVectors model :=
  ⟨fun _ _ hs model ↦ splitsVectors_of_settles hs model, splitsVectors_of_settles Source.settles⟩

/-- A clone that got one more channel. A channel entry is not a number and one entry belongs to no
channel, but the vector can be split. -/
theorem propagate_splits_binary64 :
    ∃ e used : Engine (Source Float) Float, ∃ s,
      Engine.create 0 0 10 (.elements .cartesian)
        (.linear ⟨[7, 0, 0, 0, 1, 0, 500, 2, 0.0 / 0.0, 9], [0, 1, 0, 0, 0, 0, -1, 3, 0, 1], 8,
          .mishap .readPastEnd, 0, 0⟩) [("a", 1)] = .ok e ∧
      ((Session.ofEngine e).run
        [.query 0 (.stateAt 4), .clone 0, .query 1 (.register "b" 1)]).engine? 1 = some used ∧
      used.rawLength = 9 ∧ used.model.elapsed == 4 ∧ (used.propagate 6).1 = .ok s ∧
      used.Splits 6 := by
  have hsplits := (propagate_splits (α := Float)).2
    (.linear ⟨[7, 0, 0, 0, 1, 0, 500, 2, 0.0 / 0.0, 9], [0, 1, 0, 0, 0, 0, -1, 3, 0, 1], 8,
      .mishap .readPastEnd, 0, 0⟩) 0 0 10 .cartesian [("a", 1)] _ rfl
    [.query 0 (.stateAt 4), .clone 0, .query 1 (.register "b" 1)] 1 _ rfl 6
  exact ⟨_, _, _, rfl, rfl, rfl, by decide, rfl, hsplits⟩

end Replay

end OrbitReplay
