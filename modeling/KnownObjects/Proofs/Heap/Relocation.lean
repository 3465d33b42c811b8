import KnownObjects.Heap.Collection

/-!
# Where a collection moves objects

A collection lays the objects out again from the frontier on. `moves` pairs each old address with the new one; read along the row of objects, the new addresses are increasing, start at the old frontier and end before the new one. So long as the new frontier lies within the address space, `forward` gives every object its own fresh address and never null, and it leaves null and every address without an object alone.
-/

namespace KnownObjects

theorem Address.ext_toNat {a b : Address} (heq : a.toNat = b.toNat) : a = b := by
  rw [← Address.ofNat_toNat a, ← Address.ofNat_toNat b, heq]

@[simp] theorem Address.toNat_null : Address.null.toNat = 0 := rfl

namespace Heap

variable {settings : Settings} {next : Nat} {objects : List Object}

theorem footprint_pos (hsettings : 0 < settings.alignment.toNat) (fields : Nat) : 0 < settings.footprint fields :=
  Nat.mul_pos hsettings (by omega)

theorem le_frontierAfter (settings : Settings) (next : Nat) (objects : List Object) :
    next ≤ frontierAfter settings next objects := by
  induction objects generalizing next with
  | nil => exact Nat.le_refl _
  | cons o rest ih => exact Nat.le_trans (Nat.le_add_right _ _) (ih _)

theorem map_fst_moves (settings : Settings) (next : Nat) (objects : List Object) :
    (moves settings next objects).map Prod.fst = objects.map Object.address := by
  induction objects generalizing next with
  | nil => rfl
  | cons o rest ih => simp [moves, ih]

/-- The new addresses lie between the two frontiers. -/
theorem bounds_of_mem_moves (hsettings : 0 < settings.alignment.toNat)
    (hspace : frontierAfter settings next objects < 18446744073709551616) {p : Address × Address}
    (hp : p ∈ moves settings next objects) :
    next ≤ p.2.toNat ∧ p.2.toNat < frontierAfter settings next objects := by
  induction objects generalizing next with
  | nil => simp [moves] at hp
  | cons o rest ih =>
    have hafter := le_frontierAfter settings (next + settings.footprint o.values.length) rest
    have hpos := footprint_pos hsettings o.values.length
    change frontierAfter settings (next + settings.footprint o.values.length) rest < _ at hspace
    change _ ∧ _ < frontierAfter settings (next + settings.footprint o.values.length) rest
    rcases List.mem_cons.1 hp with rfl | hp
    · rw [Address.toNat_ofNat (by omega)]
      omega
    · have hrest := ih hspace hp
      omega

theorem pairwise_moves (hsettings : 0 < settings.alignment.toNat)
    (hspace : frontierAfter settings next objects < 18446744073709551616) :
    ((moves settings next objects).map Prod.snd).Pairwise fun a b => a.toNat < b.toNat := by
  induction objects generalizing next with
  | nil => exact List.Pairwise.nil
  | cons o rest ih =>
    have hafter := le_frontierAfter settings (next + settings.footprint o.values.length) rest
    have hpos := footprint_pos hsettings o.values.length
    change frontierAfter settings (next + settings.footprint o.values.length) rest < _ at hspace
    refine List.Pairwise.cons ?_ (ih hspace)
    intro a ha
    obtain ⟨p, hp, rfl⟩ := List.mem_map.1 ha
    have hbounds := bounds_of_mem_moves hsettings hspace hp
    rw [Address.toNat_ofNat (by omega)]
    omega

theorem forward_of_not_mem {a : Address} (ha : a ∉ objects.map Object.address) :
    forward (moves settings next objects) a = a := by
  simp only [forward]
  have hnone : (moves settings next objects).lookup a = none := by
    rw [List.lookup_eq_none_iff]
    intro p hp
    rw [← map_fst_moves settings next objects] at ha
    have hne : a ≠ p.1 := fun h => ha (h ▸ List.mem_map_of_mem hp)
    simpa using hne
  rw [hnone, Option.getD_none]

/-- Along the row of objects the moves give the new addresses in order. -/
theorem map_forward (hdistinct : (objects.map Object.address).Nodup) :
    objects.map (fun o => forward (moves settings next objects) o.address) =
      (moves settings next objects).map Prod.snd := by
  induction objects generalizing next with
  | nil => rfl
  | cons o rest ih =>
    rw [List.map_cons, List.nodup_cons] at hdistinct
    rw [List.map_cons, moves, List.map_cons, ← ih hdistinct.2]
    congr 1
    · simp [forward]
    · apply List.map_congr_left
      intro p hp
      have hne : p.address ≠ o.address := by
        intro heq
        exact hdistinct.1 (heq ▸ List.mem_map_of_mem hp)
      simp [forward, List.lookup_cons, beq_false_of_ne hne]

theorem bounds_forward (hsettings : 0 < settings.alignment.toNat)
    (hspace : frontierAfter settings next objects < 18446744073709551616)
    (hdistinct : (objects.map Object.address).Nodup) {o : Object} (ho : o ∈ objects) :
    next ≤ (forward (moves settings next objects) o.address).toNat ∧
      (forward (moves settings next objects) o.address).toNat < frontierAfter settings next objects := by
  have hmem := List.mem_map_of_mem (f := fun o => forward (moves settings next objects) o.address) ho
  rw [map_forward hdistinct] at hmem
  obtain ⟨p, hp, heq⟩ := List.mem_map.1 hmem
  rw [← heq]
  exact bounds_of_mem_moves hsettings hspace hp

end Heap

end KnownObjects
