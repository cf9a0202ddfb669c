import OrbitReplay.Proofs.Binary64.Laws
import OrbitReplay.Proofs.State.Distinct
import OrbitReplay.State.Run

namespace OrbitReplay

section Lists

variable {β : Type} [BEq β]

theorem none_beq_iff {o : Option β} : none == o ↔ o = none := by
  cases o <;> simp

theorem some_beq_iff {x : β} {o : Option β} : some x == o ↔ ∃ y, o = some y ∧ x == y := by
  cases o <;> simp

theorem list_beq_iff {xs ys : List β} : xs == ys ↔ ∀ i : ℕ, xs[i]? == ys[i]? := by
  induction xs generalizing ys with
  | nil =>
    cases ys with
    | nil => simp
    | cons y ys => exact iff_of_false (by simp) fun h ↦ absurd (h 0) (by simp)
  | cons x xs ih =>
    cases ys with
    | nil => exact iff_of_false (by simp) fun h ↦ absurd (h 0) (by simp)
    | cons y ys =>
      rw [List.cons_beq_cons, Bool.and_eq_true, ih]
      refine ⟨fun ⟨hhead, htail⟩ i ↦ ?_, fun h ↦ ⟨h 0, fun i ↦ h (i + 1)⟩⟩
      cases i with
      | zero => exact hhead
      | succ i => exact htail i

theorem list_beq_self_iff {xs : List β} : xs == xs ↔ ∀ x ∈ xs, x == x := by
  induction xs with
  | nil => simp
  | cons x xs ih => rw [List.cons_beq_cons, Bool.and_eq_true, ih, List.forall_mem_cons]

variable [PartialEquivBEq β]

instance partialEquivBEq_option : PartialEquivBEq (Option β) where
  symm {a b} h := by
    cases a with
    | none =>
      obtain rfl := none_beq_iff.1 h
      exact h
    | some x =>
      obtain ⟨y, rfl, hxy⟩ := some_beq_iff.1 h
      exact some_beq_iff.2 ⟨x, rfl, BEq.symm hxy⟩
  trans {a b c} h h' := by
    cases a with
    | none =>
      obtain rfl := none_beq_iff.1 h
      exact h'
    | some x =>
      obtain ⟨y, rfl, hxy⟩ := some_beq_iff.1 h
      obtain ⟨z, rfl, hyz⟩ := some_beq_iff.1 h'
      exact some_beq_iff.2 ⟨z, rfl, BEq.trans hxy hyz⟩

instance partialEquivBEq_list : PartialEquivBEq (List β) where
  symm h := list_beq_iff.2 fun i ↦ BEq.symm (list_beq_iff.1 h i)
  trans h h' := list_beq_iff.2 fun i ↦ BEq.trans (list_beq_iff.1 h i) (list_beq_iff.1 h' i)

end Lists

namespace Tensor

variable {α : Type}

theorem beq_iff [BEq α] {v w : Tensor α} : v == w ↔ v.shape = w.shape ∧ v.data == w.data :=
  Bool.and_eq_true_iff.trans (and_congr_left' beq_iff_eq)

instance [BEq α] [PartialEquivBEq α] : PartialEquivBEq (Tensor α) where
  symm h := by
    obtain ⟨hshape, hdata⟩ := beq_iff.1 h
    exact beq_iff.2 ⟨hshape.symm, BEq.symm hdata⟩
  trans h h' := by
    obtain ⟨hshape, hdata⟩ := beq_iff.1 h
    obtain ⟨hshape', hdata'⟩ := beq_iff.1 h'
    exact beq_iff.2 ⟨hshape.trans hshape', BEq.trans hdata hdata'⟩

def Numeric (isNaN : α → Bool) (v : Tensor α) : Prop := ∀ x ∈ v.data, isNaN x = false

instance (isNaN : α → Bool) (v : Tensor α) : Decidable (v.Numeric isNaN) :=
  inferInstanceAs (Decidable (∀ x ∈ v.data, isNaN x = false))

theorem beq_self_iff [BEq α] {isNaN : α → Bool} (hnan : ∀ x : α, x == x ↔ isNaN x = false)
    {v : Tensor α} : v == v ↔ v.Numeric isNaN := by
  rw [beq_iff, and_iff_right rfl, list_beq_self_iff]
  exact forall₂_congr fun x _ ↦ hnan x

end Tensor

namespace Named

variable {β : Type} {m n : Named β} {name other : String} {v w : β}

theorem get?_eq_some_iff : m.get? name = some v ↔ (name, v) ∈ m.entries := by
  refine ⟨fun h ↦ ?_, get?_of_mem⟩
  obtain ⟨pre, post, hsplit, -⟩ := List.lookup_eq_some_iff.1 h
  rw [hsplit]
  exact List.mem_append_right pre List.mem_cons_self

theorem isSome_get? : (m.get? name).isSome ↔ name ∈ m.names := by
  rw [Option.isSome_iff_exists, names, List.mem_map]
  constructor
  · rintro ⟨v, hv⟩
    exact ⟨(name, v), get?_eq_some_iff.1 hv, rfl⟩
  · rintro ⟨e, he, rfl⟩
    exact ⟨e.2, get?_of_mem he⟩

theorem all_names_iff : m.names.all (n.names.contains ·) ↔
    ∀ name, n.get? name = none → m.get? name = none := by
  rw [List.all_eq_true]
  refine forall_congr' fun name ↦ ?_
  rw [List.contains_iff_mem, ← isSome_get?, ← isSome_get?, ← Option.not_isSome_iff_eq_none,
    ← Option.not_isSome_iff_eq_none, not_imp_not]

theorem agree_eq [BEq β] (m n : Named β) : m.agree n =
    (m.names.all (n.names.contains ·) && n.names.all (m.names.contains ·) &&
      m.entries.all fun e ↦ some e.2 == n.get? e.1) := by
  refine congrArg (_ && ·) (congrArg m.entries.all (funext fun e ↦ ?_))
  cases n.get? e.1 <;> rfl

/-- Mappings agree if each name has equal values in both or is in neither. -/
theorem agree_iff [BEq β] : m.agree n ↔ ∀ name, m.get? name == n.get? name := by
  rw [agree_eq, Bool.and_eq_true, Bool.and_eq_true, all_names_iff, all_names_iff,
    List.all_eq_true, Prod.forall]
  simp only [← get?_eq_some_iff]
  constructor
  · rintro ⟨⟨-, hnone⟩, hsome⟩ name
    cases hm : m.get? name with
    | none => exact none_beq_iff.2 (hnone name hm)
    | some v => exact hsome name v hm
  · intro h
    refine ⟨⟨fun name hn ↦ ?_, fun name hm ↦ ?_⟩, fun name v hm ↦ ?_⟩
    · by_contra hm
      obtain ⟨v, hv⟩ := Option.ne_none_iff_exists'.1 hm
      obtain ⟨w, hw, -⟩ := some_beq_iff.1 (hv ▸ h name)
      cases hn.symm.trans hw
    · exact none_beq_iff.1 (hm ▸ h name)
    · exact hm ▸ h name

theorem put_put (name : String) (v w : β) (es : List (String × β)) :
    put name w (put name v es) = put name w es := by
  induction es with
  | nil => simp [put]
  | cons e es ih =>
    by_cases h : e.1 = name
    · simp [put, h]
    · simp [put, h, ih]

theorem insert_insert (m : Named β) (name : String) (v w : β) :
    (m.insert name v).insert name w = m.insert name w := by
  simp only [insert, put_put]

end Named

namespace State

variable {α : Type} {s t : State α} {v w : Tensor α} {name other : String} {isNaN : α → Bool}

theorem get?_attach :
    (s.attach name v).additional.get? other =
      if other = name then some v else s.additional.get? other :=
  Named.get?_insert s.additional name other v

theorem attach_attach (s : State α) (name : String) (v w : Tensor α) :
    (s.attach name v).attach name w = s.attach name w := by
  rw [attach, attach, attach, Named.insert_insert]

theorem attached_eq_ok_iff : s.attached name = .ok v ↔ s.additional.get? name = some v := by
  cases h : s.additional.get? name <;> simp [attached, h]

theorem attached_attach (s : State α) (name other : String) (v : Tensor α) :
    (s.attach name v).attached other = if other = name then .ok v else s.attached other := by
  rw [attached, get?_attach]
  by_cases h : other = name
  · rw [if_pos h, if_pos h]
  · rw [if_neg h, if_neg h, attached]

theorem get?_attach_comm (hne : name ≠ other) (s : State α) (v w : Tensor α) (n : String) :
    ((s.attach name v).attach other w).additional.get? n =
      ((s.attach other w).attach name v).additional.get? n := by
  rw [get?_attach, get?_attach, get?_attach, get?_attach]
  by_cases h : n = name
  · rw [if_neg (h.trans_ne hne), if_pos h, if_pos h]
  · rw [if_neg h, if_neg h]

structure Numeric (isNaN : α → Bool) (s : State α) : Prop where
  date : isNaN s.date = false
  mass : isNaN s.mass = false
  elements : s.elements.Numeric isNaN
  attached {name : String} {v : Tensor α} : s.attached name = .ok v → v.Numeric isNaN

theorem Numeric.attach (h : s.Numeric isNaN) (hv : v.Numeric isNaN) :
    (s.attach name v).Numeric isNaN where
  date := h.date
  mass := h.mass
  elements := h.elements
  attached {other u} hu := by
    rw [attached_attach] at hu
    split at hu
    · cases hu
      exact hv
    · exact h.attached hu

theorem prefix_add (made : List (State α)) (e : Except (Failure α) (State α)) :
    made <+: (add made e).2 := by
  cases e with
  | ok s => exact List.prefix_append made [s]
  | error f => exact List.prefix_rfl

variable [Scalar α]

theorem beq_iff : s == t ↔ s.date == t.date ∧ s.mass == t.mass ∧ s.orbitType = t.orbitType ∧
    s.elements == t.elements ∧ ∀ name, s.additional.get? name == t.additional.get? name := by
  rw [← Named.agree_iff, ← beq_iff_eq (a := s.orbitType)]
  simp only [← Bool.and_eq_true, ← Bool.and_assoc]
  rfl

theorem key_beq_of_beq (h : s == t) : s.key == t.key := by
  obtain ⟨hdate, hmass, horbit, -⟩ := beq_iff.1 h
  exact Bool.and_eq_true_iff.2 ⟨Bool.and_eq_true_iff.2 ⟨hdate, hmass⟩, beq_iff_eq.2 horbit⟩

theorem attach_beq (h : s == t) (hv : v == w) (name : String) :
    s.attach name v == t.attach name w := by
  obtain ⟨hdate, hmass, horbit, helements, hattached⟩ := beq_iff.1 h
  refine beq_iff.2 ⟨hdate, hmass, horbit, helements, fun other ↦ ?_⟩
  rw [get?_attach, get?_attach]
  split
  · exact hv
  · exact hattached other

theorem attach_comm_of_beq_self (hne : name ≠ other)
    (h : (s.attach name v).attach other w == (s.attach name v).attach other w) :
    (s.attach name v).attach other w == (s.attach other w).attach name v := by
  obtain ⟨hdate, hmass, horbit, helements, hattached⟩ := beq_iff.1 h
  refine beq_iff.2 ⟨hdate, hmass, horbit, helements, fun n ↦ ?_⟩
  rw [← get?_attach_comm hne]
  exact hattached n

instance [PartialEquivBEq α] : PartialEquivBEq (State α) where
  symm h := by
    obtain ⟨hdate, hmass, horbit, helements, hattached⟩ := beq_iff.1 h
    exact beq_iff.2 ⟨BEq.symm hdate, BEq.symm hmass, horbit.symm, BEq.symm helements,
      fun name ↦ BEq.symm (hattached name)⟩
  trans h h' := by
    obtain ⟨hdate, hmass, horbit, helements, hattached⟩ := beq_iff.1 h
    obtain ⟨hdate', hmass', horbit', helements', hattached'⟩ := beq_iff.1 h'
    exact beq_iff.2 ⟨BEq.trans hdate hdate', BEq.trans hmass hmass', horbit.trans horbit',
      BEq.trans helements helements', fun name ↦ BEq.trans (hattached name) (hattached' name)⟩

section Numeric

variable (hnan : ∀ x : α, x == x ↔ isNaN x = false)

include hnan

/-- A state equals itself unless a value in it is not a number. -/
theorem beq_self_iff : s == s ↔ s.Numeric isNaN := by
  rw [beq_iff, hnan, hnan, Tensor.beq_self_iff hnan]
  constructor
  · rintro ⟨hdate, hmass, -, helements, hattached⟩
    refine ⟨hdate, hmass, helements, fun {name v} hv ↦ ?_⟩
    have h := hattached name
    rw [attached_eq_ok_iff.1 hv] at h
    exact (Tensor.beq_self_iff hnan).1 h
  · intro h
    refine ⟨h.date, h.mass, rfl, h.elements, fun name ↦ ?_⟩
    cases hv : s.additional.get? name with
    | none => rfl
    | some v => exact (Tensor.beq_self_iff hnan).2 (h.attached (attached_eq_ok_iff.2 hv))

theorem attach_comm (hne : name ≠ other) (hs : s.Numeric isNaN) (hv : v.Numeric isNaN)
    (hw : w.Numeric isNaN) :
    (s.attach name v).attach other w == (s.attach other w).attach name v :=
  attach_comm_of_beq_self hne ((beq_self_iff hnan).2 ((hs.attach hv).attach hw))

end Numeric

theorem prefix_step (made : List (State α)) (r : Request α) : made <+: (step made r).2 := by
  cases r with
  | decode decoder date raw => exact prefix_add made (decoder date raw)
  | make s => exact prefix_add made (.ok s)
  | attach i name values => exact prefix_add made ((nth made i).map (·.attach name values))
  | _ => exact List.prefix_rfl

theorem prefix_run (made : List (State α)) (rs : List (Request α)) : made <+: run made rs := by
  induction rs generalizing made with
  | nil => exact List.prefix_rfl
  | cons r rs ih => exact (prefix_step made r).trans (ih (step made r).2)

/-- What can be relied on when states are compared, hashed and given attachments; `isNaN` tells the
values that are not numbers. -/
structure Lawful (isNaN : α → Bool) : Prop where
  symm {s t : State α} : s == t → t == s
  trans {s t u : State α} : s == t → t == u → s == u
  self_iff (s : State α) : s == s ↔ s.Numeric isNaN
  key {s t : State α} : s == t → s.key == t.key
  distinct {states others : List (State α)} :
    states.Perm others → (distinct states).length = (distinct others).length
  /-- Nor does it if objects come up several times, however they hash. -/
  members {β : Type} [DecidableEq β] (hash : β → ℕ) (state : β → State α)
    {objects others : List β} : objects.Perm others →
      (gather (sameMember hash state) objects).length =
        (gather (sameMember hash state) others).length
  members_eq {β : Type} [DecidableEq β] {hash : β → ℕ} {state : β → State α} {objects : List β} :
    (∀ a b, (state a).key == (state b).key → hash a = hash b) → objects.Nodup →
      (gather (sameMember hash state) objects).map state = State.distinct (objects.map state)
  attach {s t : State α} {v w : Tensor α} (name : String) :
    s == t → v == w → s.attach name v == t.attach name w
  attach_comm {s : State α} {v w : Tensor α} {name other : String} : name ≠ other →
    s.Numeric isNaN → v.Numeric isNaN → w.Numeric isNaN →
      (s.attach name v).attach other w == (s.attach other w).attach name v
  attach_attach (s : State α) (name : String) (v w : Tensor α) :
    (s.attach name v).attach name w = s.attach name w
  attached (s : State α) (name other : String) (v : Tensor α) :
    (s.attach name v).attached other = if other = name then .ok v else s.attached other
  unchanged (made : List (State α)) (rs : List (Request α)) : made <+: run made rs

/-- States are compared lawfully, those that differ from themselves included. -/
theorem equality_lawful [Scalar.Ordered α] (hnan : ∀ x : α, x == x ↔ isNaN x = false) :
    Lawful isNaN where
  symm := BEq.symm
  trans := BEq.trans
  self_iff _ := beq_self_iff hnan
  key := key_beq_of_beq
  distinct hperm := by
    rw [distinct_eq, distinct_eq]
    exact consistent_beq.length_gather hperm
  members hash state := (consistent_sameMember hash state).length_gather
  members_eq hhash hnodup := by
    rw [distinct_eq]
    exact map_gather (fun a b h ↦ hhash a b (key_beq_of_beq h)) hnodup
  attach name h hv := attach_beq h hv name
  attach_comm := attach_comm hnan
  attach_attach := attach_attach
  attached := attached_attach
  unchanged := prefix_run

/-- The two zeros, a value that is not a number, and two attachments in either order. -/
theorem equality_lawful_binary64 :
    let plain : State Float := { date := 0, elements := .vector [7000, 0, 0, 0, 0, 0], mass := 10 }
    let negative : State Float := { plain with date := -0 }
    let broken := plain.attach "aux" (.vector [1, Float.ofNat 0 / Float.ofNat 0])
    let one : Tensor Float := .vector [1]
    let two : Tensor Float := .vector [1, 2]
    let forth := (plain.attach "aux" one).attach "fuel" two
    let back := (plain.attach "fuel" two).attach "aux" one
    Lawful Float.isNaN ∧ plain == negative ∧ plain.key == negative.key ∧
      ¬ broken.Numeric Float.isNaN ∧ ¬ broken == broken ∧
      (distinct [plain, broken, negative, broken]).length = 3 ∧
      (distinct [broken, negative, broken, plain]).length = 3 ∧
      forth.additional.names = ["aux", "fuel"] ∧ back.additional.names = ["fuel", "aux"] ∧
      forth == back ∧ ¬ plain.attach "aux" one == plain.attach "aux" two := by
  intro plain negative broken one two forth back
  have h : Lawful Float.isNaN := equality_lawful Binary64.beq_self_iff
  have hzeros : plain == negative := by decide
  have hbroken : ¬ broken == broken := by decide
  have hplain : plain.Numeric Float.isNaN := (h.self_iff plain).1 (by decide)
  have hperm : [plain, broken, negative, broken].Perm [broken, negative, broken, plain] :=
    (List.perm_append_singleton plain [broken, negative, broken]).symm
  have hcount : (distinct [plain, broken, negative, broken]).length = 3 := by decide
  refine ⟨h, hzeros, h.key hzeros, mt (h.self_iff broken).2 hbroken, hbroken, hcount,
    (h.distinct hperm).symm.trans hcount, rfl, rfl, ?_, by decide⟩
  exact h.attach_comm (by decide) hplain (by decide) (by decide)

end State

end OrbitReplay
