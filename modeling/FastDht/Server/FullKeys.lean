import FastDht.Server.StoredValues

/-! # Full keys

The store knows a key by one byte string: the namespace, the object id and the sub
key with a separator between them. The separator may occur in the names, so the same
string can be read in several ways, each of them another key. -/
namespace FastDht
open Lib

/-- The separators at `i` and `j` cut the string into names of admissible lengths. -/
structure CutsAt (full : Bytes) (i j : Nat) : Prop where
  lt : i < j
  first : full[i]? = some fdhtFullKeySeperator
  second : full[j]? = some fdhtFullKeySeperator
  namespaceLen_le : i ≤ fdhtMaxNamespaceLen
  objIdLen_le : j - (i + 1) ≤ fdhtMaxObjectIdLen
  keyLen_le : full.length - (j + 1) ≤ fdhtMaxSubKeyLen

instance (full : Bytes) (i j : Nat) : Decidable (CutsAt full i j) :=
  decidable_of_iff (i < j ∧ full[i]? = some fdhtFullKeySeperator ∧
    full[j]? = some fdhtFullKeySeperator ∧ i ≤ fdhtMaxNamespaceLen ∧
    j - (i + 1) ≤ fdhtMaxObjectIdLen ∧ full.length - (j + 1) ≤ fdhtMaxSubKeyLen)
    ⟨fun ⟨h₁, h₂, h₃, h₄, h₅, h₆⟩ => ⟨h₁, h₂, h₃, h₄, h₅, h₆⟩,
      fun ⟨h₁, h₂, h₃, h₄, h₅, h₆⟩ => ⟨h₁, h₂, h₃, h₄, h₅, h₆⟩⟩

section Cuts

variable {full : Bytes} {i j : Nat} {k k' : FDHTKeyInfo}

/-- The names between the separators. -/
def CutsAt.keyInfo (h : CutsAt full i j) : FDHTKeyInfo where
  szNameSpace := full.take i
  szObjectId := (full.drop (i + 1)).take (j - (i + 1))
  szKey := full.drop (j + 1)
  namespaceLen_le := (List.length_take_le _ _).trans h.namespaceLen_le
  objIdLen_le := (List.length_take_le _ _).trans h.objIdLen_le
  keyLen_le := by
    rw [List.length_drop]
    exact h.keyLen_le

theorem drop_eq_cons_of_getElem? {l : Bytes} {n : Nat} {b : UInt8} (h : l[n]? = some b) :
    l.drop n = b :: l.drop (n + 1) := by
  obtain ⟨hn, rfl⟩ := List.getElem?_eq_some_iff.mp h
  exact List.drop_eq_getElem_cons hn

theorem CutsAt.packFullKey_keyInfo (h : CutsAt full i j) : h.keyInfo.packFullKey = full := by
  have hlt := h.lt
  have hrest : (full.drop (i + 1)).take (j - (i + 1)) ++
      fdhtFullKeySeperator :: full.drop (j + 1) = full.drop (i + 1) := by
    rw [← drop_eq_cons_of_getElem? h.second]
    conv_rhs => rw [← List.take_append_drop (j - (i + 1)) (full.drop (i + 1))]
    rw [List.drop_drop, show i + 1 + (j - (i + 1)) = j by omega]
  show full.take i ++ fdhtFullKeySeperator :: ((full.drop (i + 1)).take (j - (i + 1)) ++
    fdhtFullKeySeperator :: full.drop (j + 1)) = full
  rw [hrest, ← drop_eq_cons_of_getElem? h.first, List.take_append_drop]

theorem cutsAt_packFullKey (k : FDHTKeyInfo) :
    CutsAt k.packFullKey k.szNameSpace.length (k.szNameSpace.length + 1 + k.szObjectId.length) := by
  have ho := k.objIdLen_le
  have hk := k.keyLen_le
  have hafter : k.packFullKey = (k.szNameSpace ++ fdhtFullKeySeperator :: k.szObjectId) ++
      fdhtFullKeySeperator :: k.szKey := by
    rw [FDHTKeyInfo.packFullKey, List.append_assoc, List.cons_append]
  have hbefore : (k.szNameSpace ++ fdhtFullKeySeperator :: k.szObjectId).length =
      k.szNameSpace.length + 1 + k.szObjectId.length := by
    rw [List.length_append, List.length_cons]
    omega
  have hlen : k.packFullKey.length =
      k.szNameSpace.length + 1 + k.szObjectId.length + 1 + k.szKey.length := by
    rw [hafter, List.length_append, hbefore, List.length_cons]
    omega
  refine ⟨by omega, ?_, ?_, k.namespaceLen_le, by omega, by omega⟩
  · rw [FDHTKeyInfo.packFullKey, List.getElem?_append_right (Nat.le_refl _), Nat.sub_self]
    rfl
  · rw [hafter, List.getElem?_append_right hbefore.le, hbefore, Nat.sub_self]
    rfl

theorem packFullKey_inj_of_length (h : k'.packFullKey = k.packFullKey)
    (hn : k'.szNameSpace.length = k.szNameSpace.length)
    (ho : k'.szObjectId.length = k.szObjectId.length) : k' = k := by
  obtain ⟨ns, obj, key, hns, hobj, hkey⟩ := k
  obtain ⟨rfl, hrest⟩ := List.append_inj h hn
  obtain ⟨rfl, hrest⟩ := List.append_inj (List.cons.inj hrest).2 ho
  obtain ⟨-, rfl⟩ := List.cons.inj hrest
  rfl

theorem packFullKey_listKey (h : k.szKey = fdhtListKeyName) :
    k.listKey.packFullKey = k.packFullKey := by
  unfold FDHTKeyInfo.packFullKey
  rw [h]
  rfl

end Cuts

/-- The key is the only way of reading its full key. -/
def FDHTKeyInfo.Unambiguous (k : FDHTKeyInfo) : Prop :=
  ∀ i j, CutsAt k.packFullKey i j →
    i = k.szNameSpace.length ∧ j = k.szNameSpace.length + 1 + k.szObjectId.length

/-- No other key that a client may name has this full key, nor has the list of an
object. -/
def FDHTKeyInfo.Private (k : FDHTKeyInfo) : Prop :=
  (∀ k', checkSubKeyName k' = true → k'.packFullKey = k.packFullKey → k' = k) ∧
    ∀ o : FDHTKeyInfo, k.packFullKey ≠ o.listKey.packFullKey

section Private

variable {k k' : FDHTKeyInfo}

theorem FDHTKeyInfo.Unambiguous.eq (h : k.Unambiguous) (heq : k'.packFullKey = k.packFullKey) :
    k' = k := by
  obtain ⟨hn, ho⟩ := h _ _ (heq ▸ cutsAt_packFullKey k')
  exact packFullKey_inj_of_length heq hn (by omega)

theorem FDHTKeyInfo.unambiguous_of_clean (hn : fdhtFullKeySeperator ∉ k.szNameSpace)
    (ho : fdhtFullKeySeperator ∉ k.szObjectId) (hk : fdhtFullKeySeperator ∉ k.szKey) :
    k.Unambiguous := by
  have hwhere : ∀ i, k.packFullKey[i]? = some fdhtFullKeySeperator →
      i = k.szNameSpace.length ∨ i = k.szNameSpace.length + 1 + k.szObjectId.length := by
    intro i hi
    have hnot : ∀ (l : Bytes) n, fdhtFullKeySeperator ∉ l → l[n]? ≠ some fdhtFullKeySeperator :=
      fun l n hl h => hl (List.mem_of_getElem? h)
    rw [FDHTKeyInfo.packFullKey] at hi
    rcases Nat.lt_trichotomy i k.szNameSpace.length with hlt | heq | hgt
    · rw [List.getElem?_append_left hlt] at hi
      exact absurd hi (hnot _ _ hn)
    · exact .inl heq
    · obtain ⟨m, rfl⟩ := Nat.exists_eq_add_of_lt hgt
      rw [List.getElem?_append_right (by omega),
        show k.szNameSpace.length + m + 1 - k.szNameSpace.length = m + 1 by omega,
        List.getElem?_cons_succ] at hi
      rcases Nat.lt_trichotomy m k.szObjectId.length with hlt | heq | hgt
      · rw [List.getElem?_append_left hlt] at hi
        exact absurd hi (hnot _ _ ho)
      · exact .inr (by omega)
      · obtain ⟨m', rfl⟩ := Nat.exists_eq_add_of_lt hgt
        rw [List.getElem?_append_right (by omega),
          show k.szObjectId.length + m' + 1 - k.szObjectId.length = m' + 1 by omega,
          List.getElem?_cons_succ] at hi
        exact absurd hi (hnot _ _ hk)
  intro i j h
  have hlt := h.lt
  rcases hwhere i h.first with hi | hi <;> rcases hwhere j h.second with hj | hj <;> omega

/-- **A key that a client may name collides with no other one exactly if its full key
can be read in one way only.** -/
theorem key_private_iff (k : FDHTKeyInfo) (hname : checkSubKeyName k = true) :
    k.Private ↔ k.Unambiguous := by
  constructor
  · rintro ⟨hkeys, hlists⟩ i j hcuts
    have hpack := hcuts.packFullKey_keyInfo
    have heq : hcuts.keyInfo = k := by
      by_cases hlist : hcuts.keyInfo.szKey = fdhtListKeyName
      · -- the other reading is the list of an object
        exact absurd (hpack.symm.trans (packFullKey_listKey hlist).symm) (hlists hcuts.keyInfo)
      · exact hkeys _ (decide_eq_true hlist) hpack
    have hlt := hcuts.lt
    have hlen : j < k.packFullKey.length := (List.getElem?_eq_some_iff.mp hcuts.second).1
    have hn : (k.packFullKey.take i).length = k.szNameSpace.length :=
      congrArg (fun k => k.szNameSpace.length) heq
    have ho : ((k.packFullKey.drop (i + 1)).take (j - (i + 1))).length = k.szObjectId.length :=
      congrArg (fun k => k.szObjectId.length) heq
    rw [List.length_take] at hn
    rw [List.length_take, List.length_drop] at ho
    omega
  · intro h
    refine ⟨fun k' _ heq => h.eq heq, fun o heq => ?_⟩
    have hlist : o.listKey = k := h.eq heq.symm
    rw [← hlist] at hname
    exact of_decide_eq_true hname rfl

end Private

/-- The key `c` of the object `b` in the namespace `a`. -/
def plainKey : FDHTKeyInfo := ⟨[97], [98], [99], by decide, by decide, by decide⟩

theorem plainKey_private : checkSubKeyName plainKey = true ∧ plainKey.Private := by
  have hname : checkSubKeyName plainKey = true := rfl
  refine ⟨hname, (key_private_iff plainKey hname).mpr ?_⟩
  exact FDHTKeyInfo.unambiguous_of_clean (by decide) (by decide) (by decide)

/-- A sub key of the object `b`, with the name of another object in it. -/
def nestedKey (sub : UInt8) : FDHTKeyInfo :=
  ⟨[97], [98], [99, 1, sub], by simp [fdhtMaxNamespaceLen], by simp [fdhtMaxObjectIdLen],
    by simp [fdhtMaxSubKeyLen]⟩

/-- A sub key of the other object. -/
def otherKey (sub : UInt8) : FDHTKeyInfo :=
  ⟨[97], [98, 1, 99], [sub], by simp [fdhtMaxNamespaceLen], by simp [fdhtMaxObjectIdLen],
    by simp [fdhtMaxSubKeyLen]⟩

/-- SET of a key to `x`, without an expiry. -/
def setKeyRequest (k : FDHTKeyInfo) : FastTaskInfo :=
  request .set 0 0 (int2buff k.szNameSpace.length ++ k.szNameSpace ++
    int2buff k.szObjectId.length ++ k.szObjectId ++ int2buff k.szKey.length ++ k.szKey ++
    int2buff 1 ++ [120])

/-- Two keys of different objects share their full key, and a sub key of one object is
the list of another: a SET of it is stored as that list. -/
theorem keys_of_objects_collide :
    (checkSubKeyName (nestedKey 100) = true ∧ checkSubKeyName (otherKey 100) = true ∧
      (nestedKey 100).packFullKey = (otherKey 100).packFullKey ∧
      nestedKey 100 ≠ otherKey 100) ∧
    (checkSubKeyName (nestedKey 42) = true ∧
      (nestedKey 42).packFullKey = (otherKey 100).listKey.packFullKey) ∧
    (served oneGroup (setKeyRequest (nestedKey 42)) emptyServer).map
        (fun s => s.store.data (0, (otherKey 100).listKey.packFullKey)) =
      some (some [0, 0, 0, 0, 120]) := by
  refine ⟨⟨rfl, rfl, rfl, ?_⟩, ⟨rfl, rfl⟩, by decide +kernel⟩
  intro h
  cases congrArg (fun k => k.szObjectId.length) h

end FastDht
