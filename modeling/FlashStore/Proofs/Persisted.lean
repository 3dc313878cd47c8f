import FlashStore.Proofs.Geometry
import FlashStore.Proofs.Removal
import FlashStore.Store.Recover

/-!
# Persisted contents

What a store would find on flash after a restart: the block in use, by the headers of both, and the
entries of its survivors. `Placement.persisted` is defined on the memory alone, so it makes sense
between any two programs of an operation, whatever the store keeps in memory at that point.
-/

namespace FlashStore

variable {m m' : Memory} {p : Placement} {block : Block} {side : Side} {g h : Word}

/-! ### Headers -/

/-- The generation in the header of a block, `none` if it does not carry the magic word. -/
def header (m : Memory) (block : Block) : Option Word :=
  if m block.magicAddress = magic then some (m block.counterAddress) else none

lemma header_def (m : Memory) (block : Block) : header m block =
    if m block.base = magic then some (m (block.base + 4)) else none := rfl

lemma header_congr (h₀ : m' block.base = m block.base)
    (h₄ : m' (block.base + 4) = m (block.base + 4)) : header m' block = header m block := by
  rw [header_def, header_def, h₀, h₄]

lemma header_eq_some_iff : header m block = some g ↔
    m block.magicAddress = magic ∧ m block.counterAddress = g := by
  unfold header
  split
  · rename_i h
    rw [Option.some_inj, and_iff_right h]
  · rename_i h
    simp [h]

lemma header_eq_some (h₀ : m block.base = magic) (h₄ : m (block.base + 4) = g) :
    header m block = some g := header_eq_some_iff.2 ⟨h₀, h₄⟩

lemma header_eq_none (h₀ : m block.base = Word.erased) : header m block = none := by
  rw [header_def, h₀, if_neg (by decide)]

/-- The block in use with its generation. -/
def Placement.newest (p : Placement) (m : Memory) : Option (Side × Word) :=
  Store.newest (header m (p.block .a)) (header m (p.block .b))

lemma Placement.newest_congr (h : ∀ s, header m' (p.block s) = header m (p.block s)) :
    p.newest m' = p.newest m := by
  rw [newest, newest, h, h]

/-- The block in use carries the magic word and its generation. -/
lemma Placement.header_of_newest (hn : p.newest m = some (side, g)) :
    header m (p.block side) = some g := by
  unfold newest Store.newest at hn
  split at hn
  · rename_i ha hb
    split at hn <;> (obtain ⟨rfl, rfl⟩ := Prod.mk.inj (Option.some.inj hn)) <;> assumption
  · obtain ⟨rfl, rfl⟩ := Prod.mk.inj (Option.some.inj hn)
    assumption
  · obtain ⟨rfl, rfl⟩ := Prod.mk.inj (Option.some.inj hn)
    assumption
  · simp at hn

/-- A block is in use if only it carries the magic word. -/
lemma Placement.newest_of_header (hs : header m (p.block side) = some g)
    (ho : header m (p.block side.other) = none) : p.newest m = some (side, g) := by
  cases side with
  | a => simp only [Side.other] at ho; simp only [newest, Store.newest, hs, ho]
  | b => simp only [Side.other] at ho; simp only [newest, Store.newest, hs, ho]

/-- One of two blocks that carry the magic word is in use. -/
lemma Placement.newest_of_headers (hs : header m (p.block side) = some g)
    (ho : header m (p.block side.other) = some h) :
    p.newest m = some (side, g) ∨ p.newest m = some (side.other, h) := by
  cases side with
  | a =>
    simp only [Side.other] at ho
    simp only [newest, Store.newest, hs, ho, Side.other]
    split <;> simp
  | b =>
    simp only [Side.other] at ho
    simp only [newest, Store.newest, hs, ho, Side.other]
    split <;> simp

lemma Placement.newest_eq_none_iff :
    p.newest m = none ↔ ∀ s, header m (p.block s) = none := by
  rw [newest, Store.newest_eq_none_iff]
  constructor
  · rintro ⟨ha, hb⟩ (_ | _)
    · exact ha
    · exact hb
  · exact fun h => ⟨h .a, h .b⟩

/-! ### Contents -/

/-- The records of a block. -/
def recordsOf (m : Memory) (block : Block) : List Record := (Chain.ofBlock m block).records

/-- The entries of the survivors of a block. -/
def retained (m : Memory) (block : Block) : Contents := entries m (survivors (recordsOf m block))

/-- What a store on the placement would find stored on flash. -/
def Placement.persisted (p : Placement) (m : Memory) : Contents :=
  match p.newest m with
  | none => []
  | some (side, _) => retained m (p.block side)

lemma Placement.persisted_of_newest (hn : p.newest m = some (side, g)) :
    p.persisted m = retained m (p.block side) := by
  simp only [persisted, hn]

lemma Placement.persisted_of_none (hn : p.newest m = none) : p.persisted m = [] := by
  simp only [persisted, hn]

/-- The records of a block are linked from its first place to where no record stands. -/
lemma linked_recordsOf (m : Memory) (block : Block) :
    ∃ z, Linked m block.stop block.first (recordsOf m block) z ∧
      recordAt m block.stop z = .error (Chain.ofBlock m block).stop :=
  linked_scan m block.stop block.first

/-- The records of a block lie inside it. -/
lemma address_of_mem_recordsOf {r : Record} (hr : r ∈ recordsOf m block) :
    block.base + 8 ≤ r.address ∧ r.stop ≤ block.stop := by
  obtain ⟨z, hl, -⟩ := linked_recordsOf m block
  obtain ⟨hat, h₁, -⟩ := hl.of_mem hr
  exact ⟨h₁, (recordAt_eq_ok_iff.1 hat).2.2.2.2⟩

lemma recordsOf_congr (h : AgreeOn block.base block.stop m m') :
    recordsOf m' block = recordsOf m block := by
  have hbase : block.first = block.base + 8 := rfl
  rw [recordsOf, recordsOf, Chain.ofBlock, Chain.ofBlock,
    Chain.scan_congr fun i hi hs => h i (by omega) hs]

/-- The contents of a block depend on the words of the block only. -/
lemma retained_congr (h : AgreeOn block.base block.stop m m') :
    retained m' block = retained m block := by
  rw [retained, recordsOf_congr h, retained]
  refine entries_congr fun r hr => ?_
  obtain ⟨h₁, h₂⟩ := address_of_mem_recordsOf ((survivors_sublist _).subset hr)
  have hpay := r.address_add_eight
  intro i hi hi'
  exact h i (by omega) (by omega)

/-- Which block is in use does not depend on the records of a block. -/
lemma Placement.newest_of_agreeOutside (hp : p.Regular)
    (h : AgreeOutside (p.block side).first (p.block side).stop m m') :
    p.newest m' = p.newest m := by
  have hapart := hp.apart side
  refine newest_congr fun t => ?_
  rcases t.eq_or_eq_other side with rfl | rfl
  · have hfirst := (p.block t).first_eq
    exact header_congr (h _ (by omega)) (h _ (by omega))
  · have hroom := hp.first_add_le side.other
    have hfirst := (p.block side).first_eq
    have hfirst' := (p.block side.other).first_eq
    exact header_congr (h _ (by omega)) (h _ (by omega))

end FlashStore
