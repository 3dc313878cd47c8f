import FlashStore.Proofs.Erasing

/-!
# Canonical records

A record is canonical if its payload words are those that a write of its value programs, so if the
bytes that pad its payload are zero. A write leaves nothing but canonical records, a removal that is
cut clears words from the start of a payload and keeps its padding, and a compaction copies whole
words. So a placement whose blocks in use hold canonical records goes on to do so.
-/

namespace FlashStore

variable {m m' : Memory} {p : Placement} {block : Block} {side : Side} {g : Word}
  {cursor stop a z k : Nat} {id : Word} {data : List UInt8} {r : Record}
  {rs pre post : List Record}

lemma zeroed_succ (b : UInt8) (n : Nat) (data : List UInt8) :
    zeroed (n + 1) (b :: data) = 0 :: zeroed n data := by
  rw [zeroed, List.length_cons, Nat.succ_min_succ, List.replicate_succ, List.drop_succ_cons,
    List.cons_append, zeroed]

/-- Clearing bytes by the word clears as many words. -/
lemma packWords_zeroed (data : List UInt8) (hk : k ≤ (packWords data).length) :
    packWords (zeroed (4 * k) data) = List.replicate k 0 ++ (packWords data).drop k := by
  fun_induction packWords data generalizing k with
  | case1 b₀ b₁ b₂ b₃ rest ih =>
    cases k with
    | zero => rw [Nat.mul_zero, zeroed_zero]; rfl
    | succ k =>
      have hrest := ih (Nat.le_of_succ_le_succ hk)
      rw [Nat.mul_succ, zeroed_succ, zeroed_succ, zeroed_succ, zeroed_succ, packWords, hrest]
      rfl
  | case2 =>
    obtain rfl : k = 0 := Nat.le_zero.1 hk
    rfl
  | case3 tail h₄ h₀ =>
    match tail with
    | [] => exact absurd rfl h₀
    | [_] | [_, _] | [_, _, _] =>
      obtain rfl | rfl : k = 0 ∨ k = 1 := by
        simp only [List.length_singleton] at hk
        omega
      · rfl
      · rfl
    | b₀ :: b₁ :: b₂ :: b₃ :: rest => exact absurd rfl (h₄ b₀ b₁ b₂ b₃ rest)

/-! ### One record -/

namespace Record

/-- The words of the payload are those of its bytes. -/
def Canonical (m : Memory) (r : Record) : Prop := packWords (r.payload m) = r.words m

lemma Canonical.congr (h : r.Canonical m) (hm : AgreeOn r.payloadAddress r.stop m m') :
    r.Canonical m' := by
  rw [Canonical, payload, words_eq_of_agreeOn hm]
  exact h

/-- The words of a canonical record are those of its value. -/
lemma Canonical.image_eq (h : r.Canonical m) : r.image m = valueImage r.id (r.payload m) := by
  rw [valueImage, length_payload, UInt32.ofNat_toNat, h]
  rfl

lemma Canonical.clearing (h : r.Canonical m) (hk : k ≤ r.wordCount) :
    r.Canonical (writeWords m r.payloadAddress (List.replicate k 0)) := by
  have hlen : k ≤ (packWords (r.payload m)).length := by
    rw [h, length_words]
    exact hk
  rw [Canonical, payload_clearing m hk, packWords_zeroed _ hlen, h, words_clearing m hk]

end Record

/-- A record that is written is canonical. -/
lemma canonical_of_spells (hlen : data.length < 2 ^ 32) (h : Spells m a (valueImage id data)) :
    (recordOf a id data).Canonical m := by
  have hcount : (recordOf a id data).wordCount = (packWords data).length := by
    rw [Record.wordCount_eq, recordOf, toNat_ofNat_length hlen, length_packWords]
  have hpay : (recordOf a id data).payload m = data := payload_of_spells hlen h
  have hwords : (recordOf a id data).words m = packWords data := words_of_spells h hcount
  rw [Record.Canonical, hpay, hwords]

/-! ### Linked records -/

/-- The live records among these are canonical. -/
def AllCanonical (m : Memory) (rs : List Record) : Prop :=
  ∀ r ∈ rs, r.isLive = true → r.Canonical m

lemma AllCanonical.congr (h : AllCanonical m rs)
    (hm : ∀ r ∈ rs, AgreeOn r.payloadAddress r.stop m m') : AllCanonical m' rs :=
  fun r hr hlive => (h r hr hlive).congr (hm r hr)

lemma AllCanonical.concat (h : AllCanonical m rs) (hr : r.Canonical m) :
    AllCanonical m (rs ++ [r]) := by
  intro x hx hlive
  rcases List.mem_append.1 hx with hx | hx
  · exact h x hx hlive
  · rw [List.mem_singleton.1 hx]
    exact hr

/-- The words of canonical records are those of their values. -/
lemma AllCanonical.images_eq (h : AllCanonical m rs) (hlive : ∀ r ∈ rs, r.isLive = true) :
    (rs.flatMap fun r => r.image m) = (entries m rs).flatMap fun e => valueImage e.id e.data := by
  induction rs with
  | nil => rfl
  | cons r rs ih =>
    have hr := h r List.mem_cons_self (hlive r List.mem_cons_self)
    rw [List.flatMap_cons, entries_cons, List.flatMap_cons, hr.image_eq,
      ih (fun x hx => h x (List.mem_cons_of_mem _ hx)) fun x hx =>
        hlive x (List.mem_cons_of_mem _ hx)]

/-- Copies of canonical records are canonical. -/
lemma AllCanonical.relocated (h : AllCanonical m rs)
    (hs : Spells m' a (rs.flatMap fun r => r.image m)) : AllCanonical m' (relocated a rs) := by
  induction rs generalizing a with
  | nil => exact nofun
  | cons r rs ih =>
    rw [List.flatMap_cons] at hs
    have hrest := hs.right
    rw [r.four_mul_length_image] at hrest
    have hw : Record.words m' { r with address := a } = r.words m :=
      words_of_spells hs.left (by rw [Record.length_words]; rfl)
    intro x hx hlive
    rcases List.mem_cons.1 hx with rfl | hx
    · have hr : r.Canonical m := h r List.mem_cons_self hlive
      rw [Record.Canonical, Record.payload, hw]
      exact hr
    · exact ih (fun x hx => h x (List.mem_cons_of_mem _ hx)) hrest x hx hlive

namespace Linked

variable (hl : Linked m stop a (pre ++ r :: post) z) (h : AllCanonical m (pre ++ r :: post))
include hl h

/-- Clearing some words of a record keeps the records canonical. -/
lemma canonical_clearing (hk : k ≤ r.wordCount) :
    AllCanonical (writeWords m r.payloadAddress (List.replicate k 0)) (pre ++ r :: post) := by
  have hout := agreeOutside_clearing m hk
  have hpay := r.address_add_eight
  intro x hx hlive
  by_cases hxr : x = r
  · rw [hxr] at hx hlive ⊢
    exact (h r hx hlive).clearing hk
  · have hother : x ∈ pre ++ post := by
      simp only [List.mem_append, List.mem_cons, hxr, false_or] at hx ⊢
      exact hx
    have hside := hl.separated x hother
    have hpay' := x.address_add_eight
    have hend' := x.payload_stop
    exact (h x hx hlive).congr (hout.agreeOn (by omega))

/-- So does removing it. -/
lemma canonical_cleared : AllCanonical (FlashStore.cleared m r) (pre ++ r.removed :: post) := by
  have hout := agreeOutside_cleared m r
  intro x hx hlive
  have hother : x ∈ pre ++ post := by
    rcases List.mem_append.1 hx with hx | hx
    · exact List.mem_append_left _ hx
    · rcases List.mem_cons.1 hx with rfl | hx
      · simp at hlive
      · exact List.mem_append_right _ hx
  have hmem : x ∈ pre ++ r :: post := by
    simp only [List.mem_append, List.mem_cons] at hother ⊢
    exact hother.imp_right Or.inr
  have hside := hl.separated x hother
  have hpay := x.address_add_eight
  have hend := x.payload_stop
  exact (h x hmem hlive).congr (hout.agreeOn (by omega))

end Linked

/-! ### Blocks -/

/-- The records of a block that carries a header are canonical. -/
def Block.Canonical (m : Memory) (block : Block) : Prop :=
  ∀ g, header m block = some g → AllCanonical m (recordsOf m block)

lemma Block.canonical_of_header_none (h : header m block = none) : block.Canonical m := by
  intro g hg
  cases h.symm.trans hg

lemma Block.Canonical.congr (h : block.Canonical m) (hroom : block.first ≤ block.stop)
    (hm : AgreeOn block.base block.stop m m') : block.Canonical m' := by
  have hbase := block.first_eq
  intro g hg
  rw [header_congr (hm _ (by omega) (by omega)) (hm _ (by omega) (by omega))] at hg
  rw [recordsOf_congr hm]
  refine (h g hg).congr fun r hr => ?_
  obtain ⟨h₁, h₂⟩ := address_of_mem_recordsOf hr
  have hpay := r.address_add_eight
  exact fun i h₃ h₄ => hm i (by omega) (by omega)

namespace Placement

/-- What a store on the placement may bring up is canonical. -/
def Canonical (p : Placement) (m : Memory) : Prop := ∀ side, (p.block side).Canonical m

lemma canonical_of_newest_none (hn : p.newest m = none) : p.Canonical m :=
  fun side => Block.canonical_of_header_none (newest_eq_none_iff.1 hn side)

namespace Canonical

variable (hp : p.Regular) (h : p.Canonical m)
include h

lemma records (hn : p.newest m = some (side, g)) : AllCanonical m (recordsOf m (p.block side)) :=
  h side g (header_of_newest hn)

include hp

/-- A block is changed, and its records are canonical again. -/
lemma change (hout : AgreeOutside (p.block side).base (p.block side).stop m m')
    (hblock : (p.block side).Canonical m') : p.Canonical m' := by
  intro t
  rcases t.eq_or_eq_other side with rfl | rfl
  · exact hblock
  · have hapart := hp.apart side
    have hroom := hp.first_add_le side.other
    exact (h _).congr (by omega) (hout.agreeOn (by omega))

/-- A block is wiped from its header on. -/
lemma wiping {hi : Nat} (hle : (p.block side).base ≤ hi) (hstop : hi ≤ (p.block side).stop) :
    p.Canonical (wiped m (p.block side).base hi) := by
  rcases Nat.eq_or_lt_of_le hle with rfl | hlt
  · rwa [wiped_self]
  · refine h.change hp ((agreeOutside_wiped _ _ _).mono (Nat.le_refl _) hstop) ?_
    exact Block.canonical_of_header_none (header_eq_none (wiped_of_mem _ (by omega)))

/-- A block is wiped to its end. -/
lemma wiped_block (side : Side) :
    p.Canonical (wiped m (p.block side).base (p.block side).stop) := by
  have hle : (p.block side).base ≤ (p.block side).stop := by
    rw [Block.stop_eq]
    omega
  exact h.wiping hp hle (Nat.le_refl _)

/-! ### Compactions and formats -/

lemma committed (hn : p.newest m = some (side, g)) :
    p.Canonical (FlashStore.committed p m side g) := by
  have hfit := survivors_fit hp m side
  have hsame : AgreeOn (p.block side.other).base (p.block side.other).stop
      (FlashStore.committed p m side g) (FlashStore.committed p m side g) := fun _ _ _ => rfl
  refine h.change hp (agreeOutside_committed hp m side g) fun g' _ => ?_
  rw [recordsOf_of_agreeOn_stamped hsame hfit (hp.first_mod _)
    fun _ hr => wellFormed_of_mem_survivors hr]
  refine AllCanonical.relocated ?_ (spells_of_agreeOn_stamped hsame hfit)
  exact fun r hr hlive => h.records hn r ((survivors_sublist _).subset hr) hlive

/-- Wherever a compaction is cut, the records are canonical. -/
lemma compacting (hn : p.newest m = some (side, g)) (hm : Compacting p m side g m') :
    p.Canonical m' := by
  cases hm with
  | filling hout hheader =>
    refine h.change hp hout ?_
    rcases hheader with rfl | hnone
    · exact h _
    · exact Block.canonical_of_header_none hnone
  | wiping hle hstop => exact (h.committed hp hn).wiping hp hle hstop

lemma formatted : p.Canonical (FlashStore.formatted p m) := by
  have hroom := hp.first_add_le .a
  have hroom' := hp.first_add_le .b
  have hfit : (p.block .a).first + Record.totalSpan [] ≤ (p.block .a).stop := by
    rw [Record.totalSpan_nil]
    omega
  have hsame : AgreeOn (p.block .a).base (p.block .a).stop
      (stamped (wiped m (p.block .b).base (p.block .b).stop) (p.block .a) 0
        (([] : List Record).flatMap fun r => r.image m)) (FlashStore.formatted p m) :=
    fun _ _ _ => rfl
  have hout : AgreeOutside (p.block .a).base (p.block .a).stop
      (wiped m (p.block .b).base (p.block .b).stop) (FlashStore.formatted p m) :=
    agreeOutside_stamped _ _ (by simp only [List.length_nil]; omega)
  refine (h.wiped_block hp .b).change hp hout fun g _ => ?_
  rw [recordsOf_of_agreeOn_stamped hsame hfit (hp.first_mod _) nofun]
  exact nofun

/-- Wherever a format is cut, the records are canonical. -/
lemma formatting {page : Nat} (hm : Formatting p page m k m') : p.Canonical m' := by
  have hend : ∀ {t : Side} {j : Nat}, j ≤ p.blockSize.toNat / page →
      (p.block t).base + page * j ≤ (p.block t).stop := by
    intro t j hj
    have h₁ := Nat.mul_le_mul_left page hj
    have h₂ := Nat.mul_div_le p.blockSize.toNat page
    rw [Block.stop_eq, size_block]
    omega
  cases hm with
  | first hk => exact h.wiping hp (Nat.le_add_right _ _) (hend hk)
  | second hk => exact (h.wiped_block hp .a).wiping hp (Nat.le_add_right _ _) (hend hk)
  | counter =>
    have hapart := hp.apart .a
    have hroom := hp.first_add_le .a
    have hbase := (p.block .a).first_eq
    simp only [Side.other] at hapart
    have hcounter : (p.block .a).counterAddress = (p.block .a).base + 4 := rfl
    have hout (m₀ : Memory) : AgreeOutside (p.block .a).base (p.block .a).stop m₀
        (Function.update m₀ (p.block .a).counterAddress 0) :=
      fun i hi => Function.update_of_ne (by omega) _ _
    refine ((h.wiped_block hp .a).wiped_block hp .b).change hp (hout _) ?_
    refine Block.canonical_of_header_none (header_eq_none ?_)
    rw [Function.update_of_ne (by omega), wiped_of_not_mem _ (by omega), wiped_of_mem _ (by omega)]

/-! ### Writes and removals -/

variable (ht : Tracked p m side g cursor)
include ht

/-- A record that has no id yet does not count. -/
lemma of_partial {hi : Nat} (hhi : hi ≤ (p.block side).stop)
    (hout : AgreeOutside (cursor + 4) hi m m') : p.Canonical m' := by
  have hfirst := ht.first_le
  have hbase := (p.block side).first_eq
  refine h.change hp (hout.mono (by omega) hhi) fun g' _ => ?_
  rw [ht.recordsOf_of_partial hp hout]
  refine (h.records ht.newest).congr fun r hr => ?_
  have hend := (ht.linked.of_mem hr).2.2
  exact hout.agreeOn (by omega)

lemma append (hid : isUsableId id = true) (hmin : minPayload ≤ data.length)
    (hfit : cursor + recordSpan data.length ≤ (p.block side).stop)
    (hspan : recordSpan data.length < 2 ^ 32) :
    p.Canonical (writeWords m cursor (valueImage id data)) := by
  have hfirst := ht.first_le
  have hbase := (p.block side).first_eq
  have hlen := length_lt_of_fit hspan
  have hout := agreeOutside_writeWords m cursor (valueImage id data)
  rw [four_mul_length_valueImage] at hout
  obtain ⟨-, hrec, -⟩ := ht.append hp hid hmin hfit hspan rfl
  refine h.change hp (hout.mono (by omega) hfit) fun g' _ => ?_
  rw [hrec]
  refine AllCanonical.concat ((h.records ht.newest).congr fun r hr => ?_)
    (canonical_of_spells (by omega) (spells_writeWords m cursor _))
  have hend := (ht.linked.of_mem hr).2.2
  exact hout.agreeOn (by omega)

variable (hr : r ∈ recordsOf m (p.block side))
include hr

lemma clearing (hk : k ≤ r.wordCount) :
    p.Canonical (writeWords m r.payloadAddress (List.replicate k 0)) := by
  obtain ⟨pre, post, hrec⟩ := List.append_of_mem hr
  have hl := hrec ▸ ht.linked
  have hout := agreeOutside_clearing m hk
  have hpay := r.address_add_eight
  obtain ⟨h₁, h₂⟩ := address_of_mem_recordsOf hr
  obtain ⟨-, hrec'⟩ := ht.of_payload hp hrec hout
  refine h.change hp (hout.mono (by omega) h₂) fun g' _ => ?_
  rw [hrec']
  exact hl.canonical_clearing (hrec ▸ h.records ht.newest) hk

lemma cleared : p.Canonical (FlashStore.cleared m r) := by
  obtain ⟨pre, post, hrec⟩ := List.append_of_mem hr
  have hl := hrec ▸ ht.linked
  have hout := agreeOutside_cleared m r
  obtain ⟨h₁, h₂⟩ := address_of_mem_recordsOf hr
  obtain ⟨-, hrec'⟩ := ht.of_cleared hp hrec
  refine h.change hp (hout.mono (by omega) h₂) fun g' _ => ?_
  rw [hrec']
  exact hl.canonical_cleared (hrec ▸ h.records ht.newest)

omit hr

variable {old : Option Record} (hold : ∀ r ∈ old, r ∈ recordsOf m (p.block side))
  (hid : isUsableId id = true) (hmin : minPayload ≤ data.length)
  (hfit : cursor + recordSpan data.length ≤ (p.block side).stop)
  (hspan : recordSpan data.length < 2 ^ 32)
include hold hid hmin hfit hspan

lemma stored : p.Canonical (FlashStore.stored m cursor id data old) := by
  have happend := h.append hp ht hid hmin hfit hspan
  obtain ⟨ht', hrec, -⟩ := ht.append hp hid hmin hfit hspan rfl
  cases old with
  | none => exact happend
  | some r => exact happend.cleared hp ht' (hrec ▸ List.mem_append_left _ (hold r rfl))

/-- Wherever the storing of a record is cut, the records are canonical. -/
lemma storing (hm : Storing m cursor id data old m') : p.Canonical m' := by
  obtain ⟨ht', hrec, -⟩ := ht.append hp hid hmin hfit hspan rfl
  cases hm with
  | writing hout => exact h.of_partial hp ht hfit hout
  | removing hmem hk =>
    have hrecord := hrec ▸ List.mem_append_left _ (hold _ hmem)
    exact (h.append hp ht hid hmin hfit hspan).clearing hp ht' hrecord hk

end Canonical

end Placement

end FlashStore
