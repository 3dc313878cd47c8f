import FlashStore.Proofs.RangedRecords
import FlashStore.Proofs.ReadPaths

/-!
# Stores in range

Every address and size that the operations of a store compute fits 32 bits, as long as those of its
blocks do: on any device and whatever flash holds or becomes on the way, a command in 32 bits does
what the command over exact numbers does.
-/

namespace FlashStore

open Store

/-! ### Chains of a block in range -/

namespace Chain

variable {word : Nat → Word} {block : Block} (hb : block.InRange)
include hb

lemma find?_eq (id : Word) : find? word block id = some ((ofBlock word block).find id) := by
  obtain ⟨z, h, hz⟩ := linked_scan word block.stop block.first
  exact find?_of_linked hb h hz id

lemma findEnd?_eq : findEnd? word block =
    some ((ofBlock word block).stop.outcome (ofBlock word block).stop.marker) := by
  obtain ⟨z, h, hz⟩ := linked_scan word block.stop block.first
  exact findEnd?_of_linked hb h hz

lemma removedBytes?_eq : removedBytes? word block =
    some ((ofBlock word block).stop.outcome (ofBlock word block).removedBytes) := by
  obtain ⟨z, h, hz⟩ := linked_scan word block.stop block.first
  exact removedBytes?_of_linked hb h hz

lemma filter?_eq (p : Record → Bool) : filter? word block p =
    some ((ofBlock word block).records.filter p, (ofBlock word block).stop.error?) := by
  obtain ⟨z, h, hz⟩ := linked_scan word block.stop block.first
  exact filter?_of_linked hb h hz p

lemma survivors?_eq : survivors? word block = some (survivors (ofBlock word block).records) := by
  obtain ⟨z, h, hz⟩ := linked_scan word block.stop block.first
  exact survivors?_of_linked hb h hz

lemma superseded?_eq : superseded? word block =
    some ((ofBlock word block).stop.outcome (superseded (ofBlock word block).records)) := by
  obtain ⟨z, h, hz⟩ := linked_scan word block.stop block.first
  exact superseded?_of_linked hb h hz

/-- Records of a block in range have their ends in range. -/
lemma stop_lt_of_mem {r : Record} (hr : r ∈ (ofBlock word block).records) :
    r.stop < 0x100000000 := by
  obtain ⟨z, h, -⟩ := linked_scan word block.stop block.first
  have hle := (h.of_mem hr).2.2
  have hz := h.end_le hb.first_le
  have hlt := hb.stop_lt
  omega

/-- The records that count take no more than the block has. -/
lemma totalSpan_survivors_le :
    Record.totalSpan (survivors (ofBlock word block).records) ≤ block.size - 8 := by
  obtain ⟨z, h, -⟩ := linked_scan word block.stop block.first
  have hz := h.end_le hb.first_le
  have hend := h.end_eq
  have hle : Record.totalSpan (survivors (ofBlock word block).records) ≤
      Record.totalSpan (ofBlock word block).records := FlashStore.totalSpan_survivors_le _
  have hrecords : z = block.first + Record.totalSpan (ofBlock word block).records := hend
  have hfirst := block.first_eq
  have hstop := block.stop_eq
  omega

omit hb

/-- What a chain is good for unless it is broken. -/
lemma outcome_eq {α : Type} (c : Chain) (x : α) :
    c.stop.outcome x = (do c.requireIntact; return x) := by
  obtain ⟨records, stop⟩ := c
  cases stop <;> rfl

end Chain

/-- Every sum over one of the two blocks fits 32 bits. -/
def Placement.InRange (p : Placement) : Prop := ∀ side, (p.block side).InRange

variable {δ α : Type} {p : Placement} {s : Store δ} {id : Word} {data : List UInt8} {r : Record}

/-! ### Wrappers -/

/-- In 32 bits an operation does what the exact one does, and leaves the placement. -/
abbrev AgreesAt (p : Placement) (y : CheckedM StoreError (Store δ) α) (x : StoreM δ α)
    (s : Store δ) : Prop := Agrees (fun s => s.placement = p) y x s

namespace AgreesAt

variable {y : CheckedM StoreError (Store δ) α} {x : StoreM δ α}

lemma query {q : Store δ → Except StoreError α} {q' : Store δ → Option (Except StoreError α)}
    (hs : s.placement = p) (h : q' s = some (q s)) :
    AgreesAt p (query? q') (Store.query q) s := by
  refine ⟨?_, .query (fun _ _ => hs) fun _ _ => hs⟩
  rw [query?, h, run_query]
  cases q s <;> rfl

/-- A question that is answered leaves the store as it is. -/
lemma query_bind {β : Type} {q : Store δ → Except StoreError β}
    {q' : Store δ → Option (Except StoreError β)} {f : β → StoreM δ α}
    {g : β → CheckedM StoreError (Store δ) α} (hs : s.placement = p) (h : q' s = some (q s))
    (hf : ∀ b, q s = .ok b → AgreesAt p (g b) (f b) s) :
    AgreesAt p (query? q' >>= g) (Store.query q >>= f) s := by
  refine (query hs h).bind fun b s' hrun _ => ?_
  rw [run_query] at hrun
  cases hq : q s with
  | ok b' =>
    rw [hq] at hrun
    cases hrun
    exact hf b hq
  | error e =>
    rw [hq] at hrun
    cases hrun

/-- The answer may come with a value that the exact operation has at hand. -/
lemma query_return_bind {β : Type} {q : Store δ → Except StoreError Unit} {b : β}
    {q' : Store δ → Option (Except StoreError β)} {x : StoreM δ α}
    {g : β → CheckedM StoreError (Store δ) α} (hs : s.placement = p)
    (h : q' s = some (do q s; return b)) (hf : AgreesAt p (g b) x s) :
    AgreesAt p (query? q' >>= g) (Store.query q >>= fun _ => x) s := by
  have hrun : (Store.query q >>= fun _ => x).run s =
      (Store.query (fun s => do q s; return b) >>= fun _ => x).run s := by
    rw [EStateM.run_bind, EStateM.run_bind, run_query, run_query]
    cases q s <;> rfl
  refine Agrees.congr (query_bind hs h fun b' hb' => ?_) hrun
  cases hq : q s with
  | ok u =>
    rw [hq] at hb'
    obtain rfl : b = b' := Except.ok.inj hb'
    exact hf
  | error e =>
    rw [hq] at hb'
    cases hb'

lemma onDevice {y : CheckedM StoreError δ α} {x : ProgramM δ α} (hs : s.placement = p)
    (h : AgreesOn y x s.device) : AgreesAt p (onDevice? y) (Store.onDevice x) s := by
  refine ⟨?_, .onDevice (h.keeps.mono (fun _ _ _ => hs) fun _ _ _ => hs)⟩
  rw [onDevice?, h.run_eq, run_onDevice]
  cases x.run s.device <;> rfl

lemma suspendOnFailure (h : AgreesAt p y x s) :
    AgreesAt p (suspendOnFailure? y) (Store.suspendOnFailure x) s := by
  refine ⟨?_, .suspendOnFailure (h.keeps.mono (fun _ _ h => h) fun _ _ h => h)⟩
  rw [suspendOnFailure?, h.run_eq, run_suspendOnFailure]
  cases x.run s <;> rfl

lemma withUnlocked [FlashDevice δ] (h : AgreesAt p y x s.beginUnlocked) :
    AgreesAt p (withUnlocked? y) (Store.withUnlocked x) s := by
  refine ⟨?_, .withUnlocked (h.keeps.mono (fun _ _ h => h) fun _ _ h => h)⟩
  rw [withUnlocked?, h.run_eq, run_withUnlocked]
  cases x.run s.beginUnlocked <;> rfl

end AgreesAt

lemma agreesAt_query {q : Store δ → Except StoreError α} (hs : s.placement = p) :
    AgreesAt p (.lift (query q)) (query q) s :=
  .lift (.query (fun _ _ => hs) fun _ _ => hs)

/-- A question with sums in 32 bits has the answer of the exact one. -/
def Settles (y : ExceptT StoreError Option α) (x : Except StoreError α) : Prop := y.run = some x

namespace Settles

variable {β : Type} {x : Except StoreError α} {y : ExceptT StoreError Option α}

lemma pure (a : α) : Settles (Pure.pure a) (Pure.pure a) := rfl

lemma lift (x : Except StoreError α) : Settles (liftM x) x := rfl

lemma bind {f : α → Except StoreError β} {g : α → ExceptT StoreError Option β} (hx : Settles y x)
    (hf : ∀ a, x = .ok a → Settles (g a) (f a)) : Settles (y >>= g) (x >>= f) := by
  show (y >>= g).run = some (x >>= f)
  rw [ExceptT.run_bind, show y.run = some x from hx]
  cases x with
  | ok a => exact hf a rfl
  | error e => rfl

/-- A sum that fits hands its value on. -/
lemma sum_bind {n : Option β} {b : β} {g : β → ExceptT StoreError Option α} (hn : n = some b)
    (h : Settles (g b) x) : Settles (liftM n >>= g) x := by
  subst hn
  exact h

/-- A question is refused on both sides alike, or goes on. -/
lemma refuse {c : Prop} [Decidable c] {e : StoreError} (h : ¬ c → Settles y x)
    {g : PUnit → ExceptT StoreError Option α} {f : PUnit → Except StoreError α} :
    Settles (if c then MonadExcept.throw e >>= g else y)
      (if c then MonadExcept.throw e >>= f else x) := by
  split
  · rfl
  · exact h ‹_›

end Settles

/-! ### Questions -/

/-- The words of a payload are read at addresses in range. -/
lemma fillWords?_of_lt (word : Nat → Word) {a : Nat} {buffer : List UInt8}
    (h : a + 4 * ((buffer.length + 3) / 4) < 0x100000000) :
    fillWords? word a buffer = some (fillWords word a buffer) := by
  fun_induction fillWords? word a buffer with
  | case1 a b₀ b₁ b₂ b₃ rest ih =>
    simp only [List.length_cons] at h
    have hnext : ranged (a + 4) = some (a + 4) := ranged_of_lt (by omega)
    simp only [hnext, Option.bind_eq_bind, Option.bind_some, ih (a + 4) (by omega)]
    rfl
  | case2 a => rfl
  | case3 a tail hcons hnil =>
    have hpos := List.length_pos_iff.2 hnil
    rw [ranged_of_lt (by omega), fillWords]
    · rfl
    · exact hcons

section Questions

variable [FlashDevice δ]

omit [FlashDevice δ] in
lemma Store.inRange_block (hp : p.InRange) (hs : s.placement = p) : s.block.InRange := by
  rw [Store.block, hs]
  exact hp s.current

/-- A record that is found has its end in range. -/
lemma Store.stop_lt_of_find (hb : s.block.InRange) (h : s.find id = .ok r) :
    r.stop < 0x100000000 := by
  rw [find_eq] at h
  split at h
  · cases h
  · split at h
    · cases h
    · split at h
      · rename_i hfind
        obtain rfl := Except.ok.inj h
        exact Chain.stop_lt_of_mem hb (Chain.mem_records_of_find hfind)
      · cases h
      · cases h

variable (hb : s.block.InRange)
include hb

omit [FlashDevice δ] in
lemma Store.free?_eq : s.free? = some s.free := by
  rw [Store.free?, Block.stop?_of_lt hb.stop_lt]
  rfl

lemma Store.find?_eq (id : Word) : s.find? id = some (s.find id) := by
  refine Settles.refuse fun _ => Settles.bind (.lift _) fun _ _ => ?_
  refine Settles.bind (Chain.find?_eq hb id) fun found _ => ?_
  cases found <;> rfl

lemma Store.read?_eq [Addressable δ] (id : Word) : s.read? id = some (s.read id) := by
  refine Settles.bind (find?_eq hb id) fun r hr => ?_
  have hlt := stop_lt_of_find hb hr
  have hend := r.payload_stop
  refine Settles.sum_bind (Record.payloadAddress?_of_lt (by omega)) ?_
  cases Addressable.slice s.device r.payloadAddress r.length.toNat <;> rfl

lemma Store.readInto?_eq (id : Word) (buffer : List UInt8) :
    s.readInto? id buffer = some (s.readInto id buffer) := by
  refine Settles.bind (find?_eq hb id) fun r hr => ?_
  have hlt := stop_lt_of_find hb hr
  have hend := r.payload_stop
  rw [r.wordCount_eq] at hend
  refine Settles.refuse fun hroom => ?_
  have hlength : (buffer.take r.length.toNat).length = r.length.toNat := by
    rw [List.length_take, Nat.min_eq_left (Nat.le_of_not_lt hroom)]
  refine Settles.sum_bind (Record.payloadAddress?_of_lt (by omega)) ?_
  refine Settles.sum_bind (fillWords?_of_lt s.word (by rw [hlength]; omega)) ?_
  rw [fillWords_payloadAddress s.word hlength]
  exact .pure _

lemma Store.contains?_eq (id : Word) : s.contains? id = some (s.contains id) := by
  rw [Store.contains?, find?_eq hb, Store.contains]
  rfl

lemma Store.list?_eq : s.list? = some s.list := by
  refine Settles.bind (.lift _) fun _ _ => ?_
  refine Settles.sum_bind (Chain.filter?_eq hb Record.isLive) ?_
  show Settles (Pure.pure (Listing.mk s.chain.live s.chain.stop.error?)) _
  unfold Chain.requireIntact
  cases s.chain.stop <;> exact .pure _

lemma Store.reclaimable?_eq : s.reclaimable? = some s.reclaimable := by
  refine Settles.bind (.lift _) fun _ _ => ?_
  exact (Chain.removedBytes?_eq hb).trans (congrArg some (Chain.outcome_eq s.chain _))

omit [FlashDevice δ] in
/-- A write that is not refused hands on the span of its record. -/
lemma Store.checkWrite?_eq (id : Word) (data : List UInt8) :
    s.checkWrite? id data = some (do s.checkWrite id data; return recordSpan data.length) := by
  have hcapacity : s.block.capacity? = some s.block.capacity := by
    refine difference_of_le ?_
    have hle := hb.first_le
    rw [s.block.first_eq, s.block.stop_eq] at hle
    exact Nat.le_of_add_le_add_left hle
  have hlt : s.block.capacity < 0x100000000 := by
    have hlt := hb.stop_lt
    rw [s.block.stop_eq] at hlt
    rw [Block.capacity]
    omega
  unfold Store.checkWrite? Store.checkWrite
  rw [hcapacity]
  cases !isUsableId id
  · by_cases hmin : data.length < minPayload
    · simp only [hmin]
      rfl
    · simp only [hmin, Bool.false_eq_true, if_false]
      cases s.requireService with
      | error e => rfl
      | ok u =>
        -- A span that leaves 32 bits is refused with the answer of one that exceeds the block.
        obtain ⟨span, hspan, hnat⟩ | ⟨hnone, hle⟩ := valueSpan?_cases data
        · rw [hspan, ← hnat]
          show (if s.block.capacity < span.toNat then some (.error StoreError.full)
            else some (.ok span.toNat)) = some (Except.bind (if s.block.capacity < span.toNat then
              .error StoreError.full else .ok ()) fun _ => .ok span.toNat)
          split <;> rfl
        · have hfull : s.block.capacity < recordSpan data.length := Nat.lt_of_lt_of_le hlt hle
          rw [hnone]
          simp only [hfull]
          rfl
  · rfl

end Questions

end FlashStore
