import OrbitReplay.Replay.Layout

namespace OrbitReplay.Replay.Layout

variable {α : Type} {l l' : Layout} {c : Channel} {name : String} {length : Int}

theorem find?_eq_none_iff : l.find? name = none ↔ name ∉ l.channels.map Channel.name := by
  simp only [find?, List.find?_eq_none, beq_iff_eq, List.mem_map, not_exists, not_and]

theorem register_of_taken (h : name ∈ l.channels.map Channel.name) (length : Int) :
    (l.register name length : Except (Failure α) (Channel × Layout)) =
      .error (.fault (.duplicateChannel name)) := by
  have hsome : (l.find? name).isSome := by
    rw [← Option.ne_none_iff_isSome]
    exact fun hn ↦ find?_eq_none_iff.1 hn h
  rw [register, if_pos hsome]

theorem register_of_free (h : name ∉ l.channels.map Channel.name) (length : Int) :
    (l.register name length : Except (Failure α) (Channel × Layout)) =
      if length ≤ 0 then .error (Defect.channelLength name length).failure
      else .ok (⟨name, l.next, length.toNat⟩,
        ⟨l.channels ++ [⟨name, l.next, length.toNat⟩], l.next + length.toNat⟩) := by
  rw [register, find?_eq_none_iff.2 h]
  rfl

theorem channel_eq_ok_iff :
    (l.channel name : Except (Failure α) Channel) = .ok c ↔ l.find? name = some c := by
  cases h : l.find? name with
  | none => simp [channel, h]
  | some d => simp [channel, h]

theorem register_eq_ok
    (h : l.register name length = (.ok (c, l') : Except (Failure α) (Channel × Layout))) :
    l.find? name = none ∧ 0 < length ∧ c = ⟨name, l.next, length.toNat⟩ ∧
      l' = ⟨l.channels ++ [c], c.stop⟩ := by
  rw [register] at h
  split at h
  · cases h
  · next hn =>
    split at h
    · cases h
    · next hl =>
      cases h
      rw [Option.not_isSome_iff_eq_none] at hn
      exact ⟨hn, Int.not_le.1 hl, rfl, rfl⟩

theorem registerAll_append (l : Layout) (rs ss : List (String × Int)) :
    (l.registerAll (rs ++ ss) : Except (Failure α) Layout) =
      match l.registerAll rs with
      | .ok l => l.registerAll ss
      | .error f => .error f := by
  induction rs generalizing l with
  | nil => rfl
  | cons r rs ih =>
    rw [List.cons_append, registerAll, registerAll]
    cases l.register r.1 r.2 with
    | error f => rfl
    | ok p => exact ih p.2

theorem registerAll_keeps {P : Layout → Prop}
    (hP : ∀ {l l' : Layout} {name length c}, P l →
      l.register name length = (.ok (c, l') : Except (Failure α) (Channel × Layout)) → P l')
    (h : P l) {rs : List (String × Int)}
    (hr : l.registerAll rs = (.ok l' : Except (Failure α) Layout)) : P l' := by
  induction rs generalizing l with
  | nil =>
    cases hr
    exact h
  | cons r rs ih =>
    rw [registerAll] at hr
    split at hr
    · next hl => exact ih (hP h hl) hr
    · cases hr

def Repeats (α : Type) (l : Layout) : Prop :=
  (registerAll {} l.requests : Except (Failure α) Layout) = .ok l

theorem Repeats.register (h : l.Repeats α)
    (hr : l.register name length = (.ok (c, l') : Except (Failure α) (Channel × Layout))) :
    l'.Repeats α := by
  obtain ⟨-, hl, hc, hl'⟩ := register_eq_ok hr
  have hrequests : l'.requests = l.requests ++ [(name, length)] := by
    have hlength : (length.toNat : Int) = length := Int.toNat_of_nonneg (Int.le_of_lt hl)
    rw [hl', requests, requests, List.map_append, hc, List.map_singleton, hlength]
  rw [Repeats, hrequests, registerAll_append, h]
  simp only [registerAll, hr]

theorem repeats_of_registerAll {rs : List (String × Int)}
    (h : registerAll {} rs = (.ok l : Except (Failure α) Layout)) : l.Repeats α :=
  registerAll_keeps Repeats.register (l := {}) rfl h

/-- Channels that cover the entries from the first number to the second, each where the one before
it stops. -/
inductive Tiles : List Channel → Nat → Nat → Prop
  | nil (n : Nat) : Tiles [] n n
  | cons {c : Channel} {cs : List Channel} {n : Nat} :
      0 < c.length → Tiles cs c.stop n → Tiles (c :: cs) c.offset n

namespace Tiles

variable {cs : List Channel} {a b : Nat}

theorem snoc (h : Tiles cs a b) {c : Channel} (hc : c.offset = b) (hpos : 0 < c.length) :
    Tiles (cs ++ [c]) a c.stop := by
  induction h with
  | nil n =>
    subst hc
    exact .cons hpos (.nil _)
  | cons hd _ ih => exact .cons hd (ih hc)

theorem le (h : Tiles cs a b) : a ≤ b := by
  induction h with
  | nil n => exact Nat.le_refl n
  | cons _ _ ih => exact Nat.le_trans (Nat.le_add_right _ _) ih

theorem stop_le (h : Tiles cs a b) : ∀ c ∈ cs, c.stop ≤ b := by
  induction h with
  | nil n => simp
  | cons _ ht ih =>
    intro d hd
    rcases List.mem_cons.1 hd with rfl | hd
    · exact ht.le
    · exact ih d hd

/-- A vector that every channel fits into reaches as far as the last one. -/
theorem le_of_stop_le (h : Tiles cs a b) {n : Nat} (ha : a ≤ n) (hcs : ∀ c ∈ cs, c.stop ≤ n) :
    b ≤ n := by
  induction h with
  | nil _ => exact ha
  | cons _ _ ih =>
    exact ih (hcs _ List.mem_cons_self) fun d hd ↦ hcs d (List.mem_cons_of_mem _ hd)

theorem flatMap_slice {β : Type} (h : Tiles cs a b) (raw : List β) :
    cs.flatMap (·.slice raw) = (raw.drop a).take (b - a) := by
  induction h with
  | nil n => simp
  | @cons c cs n _ ht ih =>
    have hle := ht.le
    have hsplit : n - c.offset = c.length + (n - c.stop) := by
      rw [Channel.stop] at hle ⊢
      omega
    rw [List.flatMap_cons, ih, hsplit, List.take_add, List.drop_drop]
    rfl

theorem pos (h : Tiles cs a b) : ∀ c ∈ cs, 0 < c.length := by
  induction h with
  | nil n => simp
  | cons hc _ ih => exact List.forall_mem_cons.2 ⟨hc, ih⟩

theorem offset_zero (h : Tiles cs a b) {c : Channel} (hc : cs[0]? = some c) : c.offset = a := by
  cases h with
  | nil => cases hc
  | cons =>
    cases hc
    rfl

theorem offset_succ (h : Tiles cs a b) {k : Nat} {c d : Channel} (hc : cs[k]? = some c)
    (hd : cs[k + 1]? = some d) : d.offset = c.stop := by
  induction h generalizing k with
  | nil n => cases hc
  | cons _ ht ih =>
    cases k with
    | zero =>
      cases hc
      exact ht.offset_zero hd
    | succ k => exact ih hc hd

theorem eq_getD_getLast? (h : Tiles cs a b) : b = (cs.getLast?.map Channel.stop).getD a := by
  induction h with
  | nil n => rfl
  | cons _ _ ih =>
    rw [ih, List.getLast?_cons]
    cases List.getLast? _ <;> rfl

theorem le_offset (h : Tiles cs a b) : ∀ c ∈ cs, a ≤ c.offset := by
  induction h with
  | nil n => simp
  | @cons c _ _ _ _ ih =>
    have hle : c.offset ≤ c.stop := Nat.le_add_right _ _
    exact List.forall_mem_cons.2 ⟨Nat.le_refl _, fun d hd ↦ Nat.le_trans hle (ih d hd)⟩

theorem pairwise (h : Tiles cs a b) : cs.Pairwise fun c d ↦ c.stop ≤ d.offset := by
  induction h with
  | nil n => exact .nil
  | cons _ ht ih => exact List.pairwise_cons.2 ⟨ht.le_offset, ih⟩

theorem exists_mem_iff (h : Tiles cs a b) {k : Nat} :
    (∃ c ∈ cs, c.offset ≤ k ∧ k < c.stop) ↔ a ≤ k ∧ k < b := by
  induction h with
  | nil n => simp
  | @cons c cs n hc ht ih =>
    have hle : c.offset ≤ c.stop := Nat.le_add_right _ _
    have hle' : c.stop ≤ n := ht.le
    simp only [List.mem_cons, exists_eq_or_imp, ih]
    omega

end Tiles

structure Tiled (l : Layout) : Prop where
  tiles : Tiles l.channels orbitLength l.next
  nodup : (l.channels.map Channel.name).Nodup

theorem tiled_empty : Tiled {} := ⟨.nil _, .nil⟩

theorem Tiled.find? (h : l.Tiled) (hc : c ∈ l.channels) : l.find? c.name = some c := by
  rw [Layout.find?, List.find?_eq_some_iff_append]
  obtain ⟨pre, post, hsplit⟩ := List.append_of_mem hc
  refine ⟨beq_self_eq_true _, pre, post, hsplit, fun d hd ↦ ?_⟩
  have hnodup := h.nodup
  rw [hsplit, List.map_append, List.nodup_append] at hnodup
  have hne := hnodup.2.2 d.name (List.mem_map_of_mem hd) c.name
    (List.mem_map_of_mem List.mem_cons_self)
  simpa using hne

theorem Tiled.register (h : l.Tiled)
    (hr : l.register name length = (.ok (c, l') : Except (Failure α) (Channel × Layout))) :
    l'.Tiled := by
  obtain ⟨hfree, hlength, rfl, rfl⟩ := register_eq_ok hr
  have hpos : 0 < length.toNat := Int.pos_iff_toNat_pos.1 hlength
  refine ⟨h.tiles.snoc rfl hpos, ?_⟩
  rw [List.map_append, List.map_singleton]
  refine List.nodup_append.2 ⟨h.nodup, by simp, fun a ha b hb he ↦ ?_⟩
  have hname : a = name := he.trans (List.mem_singleton.1 hb)
  exact find?_eq_none_iff.1 hfree (hname ▸ ha)

theorem tiled_of_registerAll {rs : List (String × Int)}
    (h : registerAll {} rs = (.ok l : Except (Failure α) Layout)) : l.Tiled :=
  registerAll_keeps Tiled.register tiled_empty h

end OrbitReplay.Replay.Layout
