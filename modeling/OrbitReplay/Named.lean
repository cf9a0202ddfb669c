namespace OrbitReplay

structure Named (β : Type) where
  entries : List (String × β)
  nodup : (entries.map Prod.fst).Nodup

namespace Named

variable {β : Type}

def empty : Named β := ⟨[], .nil⟩

def names (m : Named β) : List String := m.entries.map Prod.fst

def get? (m : Named β) (name : String) : Option β := m.entries.lookup name

def put (name : String) (v : β) : List (String × β) → List (String × β)
  | [] => [(name, v)]
  | (n, w) :: rest => if n = name then (n, v) :: rest else (n, w) :: put name v rest

theorem map_fst_put (name : String) (v : β) (es : List (String × β)) :
    (put name v es).map Prod.fst =
      if name ∈ es.map Prod.fst then es.map Prod.fst else es.map Prod.fst ++ [name] := by
  induction es with
  | nil => rfl
  | cons e es ih =>
    obtain ⟨n, w⟩ := e
    by_cases h : n = name
    · simp [put, h]
    · have h' : ¬ name = n := fun e ↦ h e.symm
      simp only [put, h, if_false, List.map_cons, ih, List.mem_cons, h', false_or]
      split <;> rfl

theorem nodup_put (name : String) (v : β) {es : List (String × β)}
    (h : (es.map Prod.fst).Nodup) : ((put name v es).map Prod.fst).Nodup := by
  rw [map_fst_put]
  split
  · exact h
  · next hn =>
    refine List.nodup_append.2 ⟨h, by simp, fun a ha b hb e ↦ hn ?_⟩
    rw [List.mem_singleton] at hb
    rwa [← hb, ← e]

def insert (m : Named β) (name : String) (v : β) : Named β :=
  ⟨put name v m.entries, nodup_put name v m.nodup⟩

theorem lookup_put (name other : String) (v : β) (es : List (String × β)) :
    (put name v es).lookup other = if other = name then some v else es.lookup other := by
  induction es with
  | nil =>
    by_cases h : other = name
    · simp [put, h]
    · simp [put, List.lookup_cons, beq_eq_false_iff_ne.2 h, h]
  | cons e es ih =>
    obtain ⟨n, w⟩ := e
    by_cases h : n = name
    · subst h
      by_cases ho : other = n
      · simp [put, ho]
      · simp [put, List.lookup_cons, beq_eq_false_iff_ne.2 ho, ho]
    · rw [put, if_neg h, List.lookup_cons, List.lookup_cons, ih]
      by_cases ho : other = n
      · subst ho
        simp [h]
      · simp [beq_eq_false_iff_ne.2 ho]

theorem get?_insert (m : Named β) (name other : String) (v : β) :
    (m.insert name v).get? other = if other = name then some v else m.get? other :=
  lookup_put name other v m.entries

theorem names_insert (m : Named β) (name : String) (v : β) :
    (m.insert name v).names = if name ∈ m.names then m.names else m.names ++ [name] :=
  map_fst_put name v m.entries

theorem put_of_not_mem {name : String} {es : List (String × β)} (h : name ∉ es.map Prod.fst)
    (v : β) : put name v es = es ++ [(name, v)] := by
  induction es with
  | nil => rfl
  | cons e es ih =>
    obtain ⟨hne, hrest⟩ := not_or.1 (mt List.mem_cons.2 h)
    rw [put, if_neg (Ne.symm hne), ih hrest]
    rfl

theorem get?_of_mem {m : Named β} {name : String} {v : β} (h : (name, v) ∈ m.entries) :
    m.get? name = some v := by
  obtain ⟨pre, post, hsplit⟩ := List.append_of_mem h
  refine List.lookup_eq_some_iff.2 ⟨pre, post, hsplit, fun e he ↦ ?_⟩
  have hnodup := m.nodup
  rw [hsplit, List.map_append, List.nodup_append] at hnodup
  have hne := hnodup.2.2 e.1 (List.mem_map_of_mem he) name
    (List.mem_map_of_mem (f := Prod.fst) (List.mem_cons_self (a := (name, v))))
  simpa using Ne.symm hne

def agree [BEq β] (m n : Named β) : Bool :=
  m.names.all (n.names.contains ·) && n.names.all (m.names.contains ·) &&
    m.entries.all fun e ↦
      match n.get? e.1 with
      | some v => e.2 == v
      | none => false

end Named

end OrbitReplay
