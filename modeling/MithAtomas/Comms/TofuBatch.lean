import MithAtomas.Comms.HonestBeacon

/-!
# A batch with rejected beacons

In signed mode the beacons of one poll are received one after the other, and an earlier one may make
the pin that a later one has to match. A beacon that is rejected leaves the neighbour table and the
pins alone (`receive_of_rejects`), so it decides nothing for those behind it: without the rejected
beacons, or with more of them put in anywhere, the batch has the same effect, and only the count of
rejected beacons differs (`foldl_unmarked`).

A list of beacons with marks stands for a batch in which some of the beacons, the marked ones, are
to be left out.
-/

namespace MithAtomas

namespace BeaconInbox

variable {F : Type} [FloatScalar F] {scheme : SignatureScheme}
  {selfId hid : HierarchicalID} {now : F}
  {inbox : BeaconInbox F} {b : StateVector F}

/-! ### One beacon -/

/-- Nobody but the key itself is pinned for the beacon's id. -/
theorem vouched_iff {keys : PeerKeyRegistry} : Vouched scheme keys b ↔ b.verifies scheme = true ∧
    (keys.find b.id = none ∨ keys.find b.id = some b.senderPubkey) := by
  constructor
  · rintro ⟨hverifies, hpinned⟩
    refine ⟨hverifies, ?_⟩
    cases hfind : keys.find b.id with
    | none => exact .inl rfl
    | some key => exact .inr (congrArg some (hpinned key hfind))
  · rintro ⟨hverifies, hfind⟩
    refine ⟨hverifies, fun key hkey => ?_⟩
    rw [hkey] at hfind
    exact Option.some.inj (hfind.resolve_left nofun)

instance (keys : PeerKeyRegistry) : Decidable (Vouched scheme keys b) :=
  decidable_of_iff _ vouched_iff.symm

/-- The beacon is somebody else's and signed, and not to be trusted. -/
def Rejects (scheme : SignatureScheme) (selfId : HierarchicalID) (keys : PeerKeyRegistry)
    (b : StateVector F) : Prop :=
  b.id ≠ selfId ∧ b.senderPubkey.present = true ∧ ¬ Vouched scheme keys b

instance (keys : PeerKeyRegistry) : Decidable (Rejects scheme selfId keys b) :=
  inferInstanceAs (Decidable (_ ∧ _ ∧ _))

/-- The inbox, with `n` more rejected beacons in the count. -/
def addRejected (inbox : BeaconInbox F) (n : UInt64) : BeaconInbox F :=
  { inbox with rejectedBeacons := inbox.rejectedBeacons + n }

omit [FloatScalar F] in
theorem addRejected_addRejected (inbox : BeaconInbox F) (m n : UInt64) :
    (inbox.addRejected m).addRejected n = inbox.addRejected (m + n) :=
  congrArg (fun k => { inbox with rejectedBeacons := k }) (UInt64.add_assoc _ _ _)

/-- **A rejected beacon** is counted, and that is all. -/
theorem receive_of_rejects (h : Rejects scheme selfId inbox.keys b) :
    receive (some scheme) selfId now inbox b = inbox.addRejected 1 := by
  obtain ⟨hother, hpresent, hvouched⟩ := h
  unfold receive
  by_cases hverifies : b.verifies scheme = true
  · obtain ⟨key, hkey, hne⟩ : ∃ key, inbox.keys.find b.id = some key ∧ key ≠ b.senderPubkey := by
      by_contra hno
      push Not at hno
      exact hvouched ⟨hverifies, hno⟩
    simp [hother, hpresent, hverifies, PeerKeyRegistry.tryPin_of_find hkey, hne, addRejected]
  · simp [hother, hpresent, hverifies, addRejected]

/-- The registry after a beacon that was accepted: the first one pins its key. -/
def pin (keys : PeerKeyRegistry) (b : StateVector F) : PeerKeyRegistry :=
  if keys.find b.id = none then AList.insert b.id b.senderPubkey keys else keys

omit [FloatScalar F] in
theorem tryPin_fst (keys : PeerKeyRegistry) : (keys.tryPin b.id b.senderPubkey).1 = pin keys b := by
  unfold PeerKeyRegistry.tryPin pin
  cases hfind : keys.find b.id with
  | none => exact (if_pos rfl).symm
  | some key => exact (if_neg nofun).symm

/-- **A signed beacon that is accepted.** -/
theorem receive_of_vouched (hother : b.id ≠ selfId) (hpresent : b.senderPubkey.present = true)
    (h : Vouched scheme inbox.keys b) : receive (some scheme) selfId now inbox b
      = { inbox with table := inbox.table.upsert b now none, keys := pin inbox.keys b } := by
  unfold receive
  simp only [if_neg hother, hpresent, h.verifies, h.tryPin_snd, if_true, tryPin_fst]

/-- An echo, or a beacon that is not signed. -/
theorem keys_receive_of_unsigned (h : ¬ (b.id ≠ selfId ∧ b.senderPubkey.present = true)) :
    (receive (some scheme) selfId now inbox b).keys = inbox.keys ∧
      (receive (some scheme) selfId now inbox b).rejectedBeacons = inbox.rejectedBeacons := by
  unfold receive
  by_cases hself : b.id = selfId
  · rw [if_pos hself]
    exact ⟨rfl, rfl⟩
  · have hpresent : ¬ b.senderPubkey.present = true := fun hp => h ⟨hself, hp⟩
    simp only [if_neg hself, if_neg hpresent]
    exact ⟨trivial, trivial⟩

/-- **The count of rejected beacons decides nothing.** -/
theorem receive_addRejected (inbox : BeaconInbox F) (n : UInt64) (b : StateVector F) :
    receive (some scheme) selfId now (inbox.addRejected n) b
      = (receive (some scheme) selfId now inbox b).addRejected n := by
  by_cases hsigned : b.id ≠ selfId ∧ b.senderPubkey.present = true
  · obtain ⟨hother, hpresent⟩ := hsigned
    by_cases hvouched : Vouched scheme inbox.keys b
    · have hvouched' : Vouched scheme (inbox.addRejected n).keys b := hvouched
      rw [receive_of_vouched hother hpresent hvouched, receive_of_vouched hother hpresent hvouched']
      rfl
    · have hrejects : Rejects scheme selfId inbox.keys b := ⟨hother, hpresent, hvouched⟩
      have hrejects' : Rejects scheme selfId (inbox.addRejected n).keys b := hrejects
      rw [receive_of_rejects hrejects, receive_of_rejects hrejects']
      unfold addRejected
      simp only [UInt64.add_assoc, UInt64.add_comm]
  · unfold receive
    by_cases hself : b.id = selfId
    · rw [if_pos hself, if_pos hself]
    · have hpresent : ¬ b.senderPubkey.present = true := fun hp => hsigned ⟨hself, hp⟩
      simp only [if_neg hself, if_neg hpresent]
      rfl

/-! ### Batches -/

variable (scheme selfId now)

/-- The loop over the beacons of one poll, in signed mode. -/
def receiveAll (inbox : BeaconInbox F) (bs : List (StateVector F)) : BeaconInbox F :=
  bs.foldl (receive (some scheme) selfId now) inbox

theorem receiveAll_addRejected (inbox : BeaconInbox F) (n : UInt64) (bs : List (StateVector F)) :
    receiveAll scheme selfId now (inbox.addRejected n) bs
      = (receiveAll scheme selfId now inbox bs).addRejected n := by
  unfold receiveAll
  induction bs generalizing inbox with
  | nil => rfl
  | cons b bs ih => rw [List.foldl_cons, receive_addRejected, ih, List.foldl_cons]

/-- Every marked beacon is rejected when its turn comes. -/
def RejectedAt (inbox : BeaconInbox F) : List (StateVector F × Bool) → Prop
  | [] => True
  | (b, marked) :: ms => (marked = true → Rejects scheme selfId inbox.keys b) ∧
      RejectedAt (receive (some scheme) selfId now inbox b) ms

/-- The batch without the marked beacons. -/
def unmarked (ms : List (StateVector F × Bool)) : List (StateVector F) :=
  (ms.filter fun m => !m.2).map Prod.fst

/-- **Rejected beacons leave no trace** but in the count. -/
theorem receiveAll_unmarked {ms : List (StateVector F × Bool)}
    (h : RejectedAt scheme selfId now inbox ms) :
    receiveAll scheme selfId now inbox (ms.map Prod.fst)
      = (receiveAll scheme selfId now inbox (unmarked ms)).addRejected
          (UInt64.ofNat (ms.countP Prod.snd)) := by
  induction ms generalizing inbox with
  | nil => exact congrArg (fun n => { inbox with rejectedBeacons := n }) (UInt64.add_zero _).symm
  | cons m ms ih =>
    obtain ⟨b, marked⟩ := m
    obtain ⟨hrejects, hrest⟩ := h
    have htail := ih hrest
    cases marked with
    | false =>
      have hcount : ((b, false) :: ms).countP Prod.snd = ms.countP Prod.snd :=
        List.countP_cons_of_neg nofun
      rw [hcount]
      exact htail
    | true =>
      -- a rejected beacon adds one to the count, and nothing else
      have hcount : ((b, true) :: ms).countP Prod.snd = ms.countP Prod.snd + 1 :=
        List.countP_cons_of_pos rfl
      have hsame : unmarked ((b, true) :: ms) = unmarked ms := rfl
      rw [receive_of_rejects (hrejects rfl), receiveAll_addRejected, receiveAll_addRejected,
        addRejected_addRejected] at htail
      rw [hcount, hsame, UInt64.ofNat_add, UInt64.add_comm]
      show receiveAll scheme selfId now (receive (some scheme) selfId now inbox b)
        (ms.map Prod.fst) = _
      rw [receive_of_rejects (hrejects rfl), receiveAll_addRejected]
      exact htail

/-- The batch, with those beacons marked that are rejected in it. -/
def markRejected (inbox : BeaconInbox F) : List (StateVector F) → List (StateVector F × Bool)
  | [] => []
  | b :: bs => (b, decide (Rejects scheme selfId inbox.keys b)) ::
      markRejected (receive (some scheme) selfId now inbox b) bs

theorem map_markRejected (inbox : BeaconInbox F) (bs : List (StateVector F)) :
    (markRejected scheme selfId now inbox bs).map Prod.fst = bs := by
  induction bs generalizing inbox with
  | nil => rfl
  | cons b bs ih => rw [markRejected, List.map_cons, ih]

theorem rejectedAt_markRejected (inbox : BeaconInbox F) (bs : List (StateVector F)) :
    RejectedAt scheme selfId now inbox (markRejected scheme selfId now inbox bs) := by
  induction bs generalizing inbox with
  | nil => trivial
  | cons b bs ih => exact ⟨of_decide_eq_true, ih _⟩

/-- One beacon is counted if it is rejected. -/
theorem rejectedBeacons_receive (inbox : BeaconInbox F) (b : StateVector F) :
    (receive (some scheme) selfId now inbox b).rejectedBeacons = inbox.rejectedBeacons
      + UInt64.ofNat (if Rejects scheme selfId inbox.keys b then 1 else 0) := by
  by_cases hrejects : Rejects scheme selfId inbox.keys b
  · rw [receive_of_rejects hrejects, if_pos hrejects]
    rfl
  · rw [if_neg hrejects]
    refine Eq.trans ?_ (UInt64.add_zero _).symm
    by_cases hsigned : b.id ≠ selfId ∧ b.senderPubkey.present = true
    · have hvouched : Vouched scheme inbox.keys b := by
        by_contra hno
        exact hrejects ⟨hsigned.1, hsigned.2, hno⟩
      rw [receive_of_vouched hsigned.1 hsigned.2 hvouched]
    · exact (keys_receive_of_unsigned hsigned).2

/-- **The count** grows by the number of beacons that are rejected. -/
theorem rejectedBeacons_receiveAll (inbox : BeaconInbox F) (bs : List (StateVector F)) :
    (receiveAll scheme selfId now inbox bs).rejectedBeacons = inbox.rejectedBeacons
      + UInt64.ofNat ((markRejected scheme selfId now inbox bs).countP Prod.snd) := by
  induction bs generalizing inbox with
  | nil => exact (UInt64.add_zero _).symm
  | cons b bs ih =>
    have hone := rejectedBeacons_receive scheme selfId now inbox b
    show (receiveAll scheme selfId now (receive (some scheme) selfId now inbox b)
      bs).rejectedBeacons
      = _
    rw [ih, hone, markRejected, List.countP_cons, Nat.add_comm, UInt64.ofNat_add, UInt64.add_assoc]
    simp only [decide_eq_true_eq]

/-! ### Pins -/

/-- The signed beacons of others that are accepted, in order. -/
def acceptedSigned (inbox : BeaconInbox F) : List (StateVector F) → List (StateVector F)
  | [] => []
  | b :: bs =>
    (if b.id ≠ selfId ∧ b.senderPubkey.present = true ∧
      Vouched scheme inbox.keys b then [b] else [])
      ++ acceptedSigned (receive (some scheme) selfId now inbox b) bs

variable {scheme selfId now}

omit [FloatScalar F] in
/-- An accepted beacon pins its key, if there is no pin. -/
theorem find_pin (keys : PeerKeyRegistry) (b : StateVector F) (hid : HierarchicalID) :
    (pin keys b).find hid = (keys.find hid).or
      (([b].find? fun accepted => accepted.id = hid).map StateVector.senderPubkey) := by
  unfold pin
  by_cases hb : b.id = hid
  · subst hb
    have hfind : ([b].find? fun accepted => accepted.id = b.id) = some b := by simp
    rw [hfind]
    cases hkey : keys.find b.id with
    | none =>
      rw [if_pos rfl]
      exact AList.lookup_insert keys
    | some key =>
      rw [if_neg nofun, hkey]
      rfl
  · have hfind : ([b].find? fun accepted => accepted.id = hid) = none := by simp [hb]
    rw [hfind, Option.map_none, Option.or_none]
    split
    · exact AList.lookup_insert_ne (Ne.symm hb)
    · rfl

/-- **The pins after a batch**: those from before, and for the other ids the key of the first
accepted beacon. -/
theorem find_receiveAll (inbox : BeaconInbox F) (bs : List (StateVector F)) (hid : HierarchicalID) :
    (receiveAll scheme selfId now inbox bs).keys.find hid = (inbox.keys.find hid).or
      (((acceptedSigned scheme selfId now inbox bs).find? fun accepted => accepted.id = hid).map
        StateVector.senderPubkey) := by
  induction bs generalizing inbox with
  | nil => exact (Option.or_none).symm
  | cons b bs ih =>
    refine (ih (receive (some scheme) selfId now inbox b)).trans ?_
    by_cases haccepted : b.id ≠ selfId ∧ b.senderPubkey.present = true ∧ Vouched scheme inbox.keys b
    · obtain ⟨hother, hpresent, hvouched⟩ := haccepted
      have hkeys : (receive (some scheme) selfId now inbox b).keys = pin inbox.keys b := by
        rw [receive_of_vouched hother hpresent hvouched]
      rw [acceptedSigned, if_pos ⟨hother, hpresent, hvouched⟩, hkeys, find_pin,
        List.find?_append, Option.or_assoc, Option.map_or]
    · have hkeys : (receive (some scheme) selfId now inbox b).keys = inbox.keys := by
        by_cases hsigned : b.id ≠ selfId ∧ b.senderPubkey.present = true
        · rw [receive_of_rejects
            ⟨hsigned.1, hsigned.2, fun hv => haccepted ⟨hsigned.1, hsigned.2, hv⟩⟩]
          rfl
        · exact (keys_receive_of_unsigned hsigned).1
      rw [acceptedSigned, if_neg haccepted, hkeys, List.nil_append]

/-- A pin stays, for the rest of the batch. -/
theorem find_receiveAll_of_find {key : IdentityKey} (h : inbox.keys.find hid = some key)
    (bs : List (StateVector F)) :
    (receiveAll scheme selfId now inbox bs).keys.find hid = some key := by
  rw [find_receiveAll, h]
  rfl

theorem receiveAll_append (inbox : BeaconInbox F) (bs bs' : List (StateVector F)) :
    receiveAll scheme selfId now inbox (bs ++ bs')
      = receiveAll scheme selfId now (receiveAll scheme selfId now inbox bs) bs' :=
  List.foldl_append

end BeaconInbox

open BeaconInbox in
/-- **Rejected traffic does not matter.** In signed mode, from every table and all pins, for every
batch: a signed beacon of somebody else is accepted if it verifies and matches the pin, if there is
one; a pin is the key of the first accepted beacon and stays; and beacons that are rejected can be
left out of the batch, or have been put into it, without any effect but on the count. -/
theorem tofu_batch {F : Type} [FloatScalar F] (scheme : SignatureScheme) (selfId : HierarchicalID)
    (now : F) (inbox : BeaconInbox F) (bs : List (StateVector F)) :
    (∀ b, b.id ≠ selfId → b.senderPubkey ≠ {} →
      ∀ after, after = receiveAll scheme selfId now inbox bs →
      receiveAll scheme selfId now inbox (bs ++ [b]) =
        if b.verifies scheme = true ∧
            (after.keys.find b.id = none ∨ after.keys.find b.id = some b.senderPubkey) then
          { after with table := after.table.upsert b now none, keys := pin after.keys b }
        else { after with rejectedBeacons := after.rejectedBeacons + 1 }) ∧
    (∀ hid, (receiveAll scheme selfId now inbox bs).keys.find hid = (inbox.keys.find hid).or
      (((acceptedSigned scheme selfId now inbox bs).find? fun accepted => accepted.id = hid).map
        StateVector.senderPubkey)) ∧
    (∀ hid key bs', (receiveAll scheme selfId now inbox bs).keys.find hid = some key →
      (receiveAll scheme selfId now inbox (bs ++ bs')).keys.find hid = some key) ∧
    (receiveAll scheme selfId now inbox bs =
        (receiveAll scheme selfId now inbox
          (unmarked (markRejected scheme selfId now inbox bs))).addRejected
          (UInt64.ofNat ((markRejected scheme selfId now inbox bs).countP Prod.snd)) ∧
      (receiveAll scheme selfId now inbox
        (unmarked (markRejected scheme selfId now inbox bs))).rejectedBeacons
        = inbox.rejectedBeacons) ∧
    ∀ ms, unmarked ms = bs → RejectedAt scheme selfId now inbox ms →
      receiveAll scheme selfId now inbox (ms.map Prod.fst) =
        (receiveAll scheme selfId now inbox bs).addRejected
          (UInt64.ofNat (ms.countP Prod.snd)) := by
  have hdelete := receiveAll_unmarked scheme selfId now
    (rejectedAt_markRejected scheme selfId now inbox bs)
  rw [map_markRejected] at hdelete
  refine ⟨?_, find_receiveAll inbox bs, ?_, ⟨hdelete, ?_⟩, ?_⟩
  · rintro b hother hkey after rfl
    -- the beacon carries a key, so it is looked at
    have hpresent : b.senderPubkey.present = true := by
      by_contra hno
      exact hkey (IdentityKey.present_eq_false_iff.mp (Bool.not_eq_true _ ▸ hno))
    rw [receiveAll_append]
    generalize receiveAll scheme selfId now inbox bs = after
    show receive (some scheme) selfId now after b = _
    by_cases hvouched : Vouched scheme after.keys b
    · rw [if_pos (vouched_iff.mp hvouched), receive_of_vouched hother hpresent hvouched]
    · rw [if_neg fun h => hvouched (vouched_iff.mpr h),
        receive_of_rejects ⟨hother, hpresent, hvouched⟩]
      rfl
  · intro hid key bs' hfind
    -- a pin is never replaced
    rw [receiveAll_append]
    exact find_receiveAll_of_find hfind bs'
  · -- what is left out is all that was counted
    have hcount := rejectedBeacons_receiveAll scheme selfId now inbox bs
    rw [hdelete] at hcount
    exact (UInt64.add_left_inj _).mp hcount
  · rintro ms rfl hrejected
    exact receiveAll_unmarked scheme selfId now hrejected

end MithAtomas
