import FastDht.Server.StoredValues

/-! # The expiry moved to the server's clock

A client sends its own time and an expiry on its own clock; `CHECK_GROUP_ID`
keeps the distance of the two and adds it to the server's time. The sum is a
`time_t`, the store has 32 bits for it, and two of their values are no times:
0 is never and -1 is none. -/

namespace FastDht
open Lib

/-- `x` is what the four bytes in front of a value of the request read back as, for each
command that stores one; an entry of BATCH_SET makes its store call with that value. -/
structure StoresExpiry (g : Globals) (t : FastTaskInfo) (x : Int) : Prop where
  set : ∀ r n, parseSet g true t = some (r, n) →
    buff2int ((setBuffer r t).bodyBytes r.off (4 + n)) = x
  inc : ∀ (σ : Type) (S : StoreFuncs σ) (s : Server σ) (r : KeyRequest),
    parseExact g 16 true t = some r → (incCall S g r t s).1 = 0 →
      buff2int (incCall S g r t s).2.1 = x
  batchSet : ∀ (σ : Type) (S : StoreFuncs σ) (r : BatchRequest) (n : Int) (b b' : BatchState σ),
    parseBatchRequest g 20 t = some r → batchSetEntry S g r n b = .ok b' →
      ∃ k valueLen src w, b'.server = b.server.logged g (S.set b.server.store r.header.groupId
        k.packFullKey (batchSetValue r k valueLen src b)) w ∧
        (0 ≤ valueLen → buff2int (batchSetValue r k valueLen src b) = x)

theorem storesExpiry_newExpires (g : Globals) (t : FastTaskInfo) :
    StoresExpiry g t (toInt32 (t.header g).newExpires) where
  set := by
    intro r n hp
    rw [setBuffer_value g .sourceSet, buff2int_int2buff, (parseSet_of hp).1.header]
    rfl
  inc := by
    intro σ S s r hp h0
    obtain ⟨m, hm⟩ := S.incEx_value _ _ _ _ _ _ _ h0
    have hvalue : (incCall S g r t s).2.1 = incValue (toInt32 r.header.newExpires) m := hm
    rw [hvalue, incValue, buff2int_int2buff, toInt32_toInt32, (parseExact_of hp).header]
  batchSet := by
    intro σ S r n b b' hp he
    obtain ⟨k, valueLen, src, hstep⟩ := batchSetEntry_ok he
    refine ⟨k, valueLen, src, _, hstep.server_eq, fun hv => ?_⟩
    have h4 : readAt (batchSetBuffer r k src b).data src 4 =
        int2buff (toInt32 r.header.newExpires) := readAt_writeAt_self _ _ src
    rw [batchSetValue, show (valueLen + 4).toNat = 4 + valueLen.toNat by omega, readAt_add, h4,
      buff2int_int2buff, toInt32_toInt32, (parseBatchRequest_of hp).1]

/-- The moved expiry keeps its meaning: a later one still fits in 32 bits, and
an earlier one is not moved onto 0 or -1. -/
def KeepsExpiry (now timestamp expires : Int) : Prop :=
  (timestamp ≤ expires → now + (expires - timestamp) < 2 ^ 31) ∧
    (expires < timestamp → now + (expires - timestamp) ≠ fdhtExpiresNever ∧
      now + (expires - timestamp) ≠ fdhtExpiresNone)

/-- What the move is for: the key is live exactly if the client's expiry was not
before the client's time, and the expiry stays a time. -/
def RebasedExpiry (now timestamp expires x : Int) : Prop :=
  (expired x now = false ↔ timestamp ≤ expires) ∧ x ≠ fdhtExpiresNever ∧ x ≠ fdhtExpiresNone

theorem expired_eq_false_iff {x now : Int} :
    expired x now = false ↔ x = fdhtExpiresNever ∨ now ≤ x := by
  simp [expired, imp_iff_not_or]

section Rebasing

variable {now timestamp expires : Int}

/-- A later expiry is moved to `now` or after it, or wraps to a negative number. -/
theorem rebased_later (hnow : 1 ≤ now ∧ now < 2 ^ 31) (hts : 1 ≤ timestamp)
    (he : expires < 2 ^ 31) (hle : timestamp ≤ expires) :
    RebasedExpiry now timestamp expires (toInt32 (now + (expires - timestamp))) ↔
      now + (expires - timestamp) < 2 ^ 31 := by
  obtain ⟨hlow, hhigh, q, hq⟩ := toInt32_spec (now + (expires - timestamp))
  simp only [RebasedExpiry, expired_eq_false_iff, fdhtExpiresNever, fdhtExpiresNone]
  omega

theorem rebased_earlier (hnow : 1 ≤ now ∧ now < 2 ^ 31) (hts : timestamp < 2 ^ 31)
    (he : 1 ≤ expires) (hlt : expires < timestamp) :
    RebasedExpiry now timestamp expires (toInt32 (now + (expires - timestamp))) ↔
      now + (expires - timestamp) ≠ fdhtExpiresNever ∧
        now + (expires - timestamp) ≠ fdhtExpiresNone := by
  rw [toInt32_of_range (by omega) (by omega)]
  simp only [RebasedExpiry, expired_eq_false_iff, fdhtExpiresNever, fdhtExpiresNone]
  omega

theorem rebasedExpiry_iff (hnow : 1 ≤ now ∧ now < 2 ^ 31)
    (hts : 1 ≤ timestamp ∧ timestamp < 2 ^ 31) (he : 1 ≤ expires ∧ expires < 2 ^ 31) :
    RebasedExpiry now timestamp expires (toInt32 (now + (expires - timestamp))) ↔
      KeepsExpiry now timestamp expires := by
  by_cases hle : timestamp ≤ expires
  · rw [rebased_later hnow hts.1 he.2 hle]
    exact ⟨fun h => ⟨fun _ => h, fun hlt => absurd hlt (by omega)⟩, fun h => h.1 hle⟩
  · have hlt : expires < timestamp := by omega
    rw [rebased_earlier hnow hts.2 he.1 hlt]
    exact ⟨fun h => ⟨fun h' => absurd h' hle, fun _ => h⟩, fun h => h.2 hlt⟩

end Rebasing

/-- **The expiry that a request stores keeps its meaning exactly if the moved
time fits in 32 bits and misses the two values that are no times.** -/
theorem stored_expiry_rebased_iff (g : Globals) (t : FastTaskInfo)
    (hnow : 1 ≤ g.currentTime ∧ g.currentTime < 2 ^ 31)
    (hts : 1 ≤ t.intAt timestampOffset) (he : 1 ≤ t.intAt expiresOffset) :
    StoresExpiry g t (toInt32 (t.header g).newExpires) ∧
      (RebasedExpiry g.currentTime (t.intAt timestampOffset) (t.intAt expiresOffset)
          (toInt32 (t.header g).newExpires) ↔
        KeepsExpiry g.currentTime (t.intAt timestampOffset) (t.intAt expiresOffset)) := by
  refine ⟨storesExpiry_newExpires g t, ?_⟩
  have hnew : (t.header g).newExpires =
      g.currentTime + (t.intAt expiresOffset - t.intAt timestampOffset) := if_pos ⟨hts, he⟩
  rw [hnew]
  exact rebasedExpiry_iff hnow ⟨hts, buff2int_lt _⟩ ⟨he, buff2int_lt _⟩

/-- SET of the key `a` with an expiry of the client's clock. -/
def setExpiring (timestamp expires : Int) : FastTaskInfo :=
  request .set timestamp expires
    (int2buff 0 ++ int2buff 0 ++ int2buff 1 ++ [97] ++ int2buff 1 ++ [120])

/-- An expiry one minute ahead of a client whose clock is half an hour ahead. -/
theorem stored_expiry_rebased_minute :
    RebasedExpiry 1000 2800 2860 (toInt32 ((setExpiring 2800 2860).header oneGroup).newExpires) :=
  ((stored_expiry_rebased_iff oneGroup (setExpiring 2800 2860) (by decide) (by decide)
    (by decide)).2.2 ⟨fun _ => by decide, fun h => absurd h (by decide)⟩)

/-- The last time that 32 bits have, sent by a client whose clock is one second
late: the sum wraps and the key is gone at once. At the server's time 1000 an expiry
1000 seconds before the client's time is moved onto 0, so that the key never expires,
and one 1001 seconds before it onto -1. -/
theorem stored_expiry_lost :
    (¬ ∀ (g : Globals) (t : FastTaskInfo), 1 ≤ g.currentTime ∧ g.currentTime < 2 ^ 31 →
      1 ≤ t.intAt timestampOffset → 1 ≤ t.intAt expiresOffset →
      RebasedExpiry g.currentTime (t.intAt timestampOffset) (t.intAt expiresOffset)
        (toInt32 (t.header g).newExpires)) ∧
    (∃ s, served oneGroup (setExpiring 999 2147483647) emptyServer = some s ∧
      s.store.data (0, [1, 1, 97]) = some (int2buff (-2147483648) ++ [120]) ∧
      (dealCmdGet bdbFuncs oneGroup quietEnv refreshRequest s).status = ENOENT) ∧
    toInt32 ((setExpiring 2800 1800).header oneGroup).newExpires = fdhtExpiresNever ∧
    toInt32 ((setExpiring 2800 1799).header oneGroup).newExpires = fdhtExpiresNone := by
  refine ⟨fun h => ?_, ?_, by decide, by decide⟩
  · have hx := (h oneGroup (setExpiring 2800 1800) (by decide) (by decide) (by decide)).2.1
    exact hx (by decide)
  · have hserved : (served oneGroup (setExpiring 999 2147483647) emptyServer).map (fun s =>
        (s.store.data (0, [1, 1, 97]),
          (dealCmdGet bdbFuncs oneGroup quietEnv refreshRequest s).status)) =
        some (some (int2buff (-2147483648) ++ [120]), ENOENT) := by decide +kernel
    obtain ⟨s, hs, heq⟩ := Option.map_eq_some_iff.mp hserved
    exact ⟨s, hs, congrArg Prod.fst heq, congrArg Prod.snd heq⟩

end FastDht
