import FlashStore.Proofs.Encoding

/-!
# Records that count

How the survivors of a chain change when a record is appended or removed. Removing a superseded
record changes nothing, which is why an interrupted update can be settled later; appending one
supersedes the record with its id.
-/

namespace FlashStore

variable {r : Record} {rs pre post : List Record}

/-- The record as its removal leaves it. -/
def Record.removed (r : Record) : Record := { r with id := removedId }

@[simp] lemma Record.id_removed (r : Record) : r.removed.id = removedId := rfl

@[simp] lemma Record.isLive_removed (r : Record) : r.removed.isLive = false := by
  simp [removed, isLive]

@[simp] lemma Record.span_removed (r : Record) : r.removed.span = r.span := rfl

/-! ### Superseded records -/

lemma isSuperseded_append (r : Record) (rs rs' : List Record) :
    isSuperseded r (rs ++ rs') = (isSuperseded r rs || isSuperseded r rs') := List.any_append

lemma isSuperseded_cons (r r' : Record) (rs : List Record) :
    isSuperseded r (r' :: rs) = (r'.id == r.id || isSuperseded r rs) := rfl

/-- A removed record supersedes nothing that is live, and what it superseded still is. -/
lemma isSuperseded_removed {x : Record} (hx : x.isLive = true)
    (h : isSuperseded r post = true) :
    isSuperseded x (pre ++ r.removed :: post) = isSuperseded x (pre ++ r :: post) := by
  simp only [isSuperseded_append, isSuperseded_cons]
  have hne : (r.removed.id == x.id) = false := by
    rw [beq_eq_false_iff_ne]
    exact (Record.isLive_iff.1 hx).symm
  rw [hne]
  by_cases he : r.id = x.id
  · have : isSuperseded x post = true := by rwa [isSuperseded, ← he]
    simp [this]
  · simp [beq_eq_false_iff_ne.2 he]

/-- Removing a superseded record leaves the same survivors. -/
lemma survivors_removed (h : isSuperseded r post = true) :
    survivors (pre ++ r.removed :: post) = survivors (pre ++ r :: post) := by
  induction pre with
  | nil => simp [survivors, h]
  | cons x pre ih =>
    rw [List.cons_append, List.cons_append, survivors, survivors, ih]
    cases hx : x.isLive with
    | false => simp
    | true => rw [isSuperseded_removed hx h]

/-- A live record that is appended survives, and no other one with its id does. -/
lemma survivors_concat (hr : r.isLive = true) :
    survivors (rs ++ [r]) = (survivors rs).filter (·.id != r.id) ++ [r] := by
  induction rs with
  | nil => simp [survivors, hr, isSuperseded]
  | cons x rs ih =>
    rw [List.cons_append, survivors, survivors, ih, isSuperseded_append, isSuperseded_cons]
    by_cases he : x.id = r.id
    · cases x.isLive <;> cases isSuperseded x rs <;> simp [isSuperseded, he]
    · have he' := Ne.symm he
      cases x.isLive <;> cases isSuperseded x rs <;> simp [isSuperseded, he, he']

/-- What survives takes no more room than all records. -/
lemma totalSpan_survivors_le (rs : List Record) :
    Record.totalSpan (survivors rs) ≤ Record.totalSpan rs := by
  induction rs with
  | nil => exact Nat.le_refl _
  | cons r rs ih =>
    rw [survivors, Record.totalSpan_cons]
    split
    · rw [Record.totalSpan_cons]
      exact Nat.add_le_add_left ih _
    · exact Nat.le_trans ih (Nat.le_add_left _ _)

lemma isLive_of_mem_survivors (h : r ∈ survivors rs) : r.isLive = true := by
  induction rs with
  | nil => simp at h
  | cons x rs ih =>
    rw [survivors] at h
    split at h
    · rename_i hx
      rcases List.mem_cons.1 h with rfl | h
      · exact (Bool.and_eq_true_iff.1 hx).1
      · exact ih h
    · exact ih h

/-! ### Distinct records -/

/-- No live record is followed by one with its id. -/
def Distinct (rs : List Record) : Prop := rs.Pairwise fun r r' => r.isLive → r.id ≠ r'.id

lemma Distinct.survivors_eq (h : Distinct rs) : survivors rs = rs.filter Record.isLive :=
  survivors_eq_filter h

lemma Distinct.superseded_eq (h : Distinct rs) : superseded rs = [] := by
  induction rs with
  | nil => rfl
  | cons r rs ih =>
    obtain ⟨hr, hrs⟩ := List.pairwise_cons.1 h
    have hkept : ¬ (r.isLive && isSuperseded r rs) = true := by
      rw [Bool.and_eq_true, isSuperseded, List.any_eq_true]
      rintro ⟨hlive, x, hx, hid⟩
      exact hr x hx hlive (beq_iff_eq.1 hid).symm
    rw [superseded, if_neg hkept, ih hrs]

lemma distinct_nil : Distinct [] := List.Pairwise.nil

lemma distinct_survivors (rs : List Record) : Distinct (survivors rs) := by
  refine List.Pairwise.imp ?_ (survivors_pairwise rs)
  exact fun hne _ => hne

lemma distinct_relocated {a : Nat} (h : Distinct rs) (hl : ∀ r ∈ rs, r.isLive = true) :
    Distinct (relocated a rs) := by
  have hids : rs.Pairwise fun r r' => r.id ≠ r'.id :=
    h.imp_of_mem fun hr _ hne => hne (hl _ hr)
  have hmap : ((relocated a rs).map Record.id).Pairwise (· ≠ ·) := by
    rw [map_id_relocated]
    exact List.pairwise_map.2 hids
  refine List.Pairwise.imp ?_ (List.pairwise_map.1 hmap)
  exact fun hne _ => hne

/-- Copies of distinct live records all count. -/
lemma survivors_relocated {a : Nat} (h : Distinct rs) (hl : ∀ r ∈ rs, r.isLive = true) :
    survivors (relocated a rs) = relocated a rs := by
  rw [(distinct_relocated h hl).survivors_eq, List.filter_eq_self]
  intro r hr
  have hid : r.id ∈ rs.map Record.id := by
    rw [← map_id_relocated a]
    exact List.mem_map_of_mem hr
  obtain ⟨r', hr', he⟩ := List.mem_map.1 hid
  have hlive := hl r' hr'
  rw [Record.isLive_iff] at hlive ⊢
  exact he ▸ hlive

/-- Removing a record keeps the others distinct. -/
lemma Distinct.removed (h : Distinct (pre ++ r :: post)) :
    Distinct (pre ++ r.removed :: post) := by
  obtain ⟨hpre, hrest, hcross⟩ := List.pairwise_append.1 h
  refine List.pairwise_append.2 ⟨hpre, ?_, ?_⟩
  · exact List.Pairwise.cons (by simp) hrest.of_cons
  · intro x hx y hy hlive
    rcases List.mem_cons.1 hy with rfl | hy
    · exact Record.isLive_iff.1 hlive
    · exact hcross x hx y (List.mem_cons_of_mem _ hy) hlive

/-- A record that is appended in place of another keeps the records distinct. -/
lemma Distinct.concat (h : Distinct rs) (hne : ∀ x ∈ rs, x.isLive = true → x.id ≠ r.id) :
    Distinct (rs ++ [r]) := by
  refine List.pairwise_append.2 ⟨h, List.pairwise_singleton _ _, ?_⟩
  intro x hx y hy hlive
  obtain rfl := List.mem_singleton.1 hy
  exact hne x hx hlive

/-- The other live records do not carry the id of a live one. -/
lemma Distinct.id_ne (h : Distinct (pre ++ r :: post)) (hr : r.isLive = true) {x : Record}
    (hx : x ∈ pre ++ post) (hlive : x.isLive = true) : x.id ≠ r.id := by
  obtain ⟨-, hrest, hcross⟩ := List.pairwise_append.1 h
  rcases List.mem_append.1 hx with hx | hx
  · exact hcross x hx r List.mem_cons_self hlive
  · exact (List.rel_of_pairwise_cons hrest hx hr).symm

/-- Without another record of its id, a removed record takes its entry with it. -/
lemma Distinct.survivors_removed (h : Distinct (pre ++ r :: post)) (hr : r.isLive = true) :
    survivors (pre ++ r.removed :: post) =
      (survivors (pre ++ r :: post)).filter (·.id != r.id) := by
  rw [h.removed.survivors_eq, h.survivors_eq]
  have hpre : ∀ x ∈ pre.filter Record.isLive, (x.id != r.id) = true := by
    intro x hx
    obtain ⟨hx, hlive⟩ := List.mem_filter.1 hx
    exact bne_iff_ne.2 (h.id_ne hr (List.mem_append_left _ hx) hlive)
  have hpost : ∀ x ∈ post.filter Record.isLive, (x.id != r.id) = true := by
    intro x hx
    obtain ⟨hx, hlive⟩ := List.mem_filter.1 hx
    exact bne_iff_ne.2 (h.id_ne hr (List.mem_append_right _ hx) hlive)
  simp only [List.filter_append, List.filter_cons, hr, Record.isLive_removed, if_true,
    List.filter_eq_self.2 hpre, List.filter_eq_self.2 hpost]
  simp

/-! ### Settled records -/

/-- The records with the superseded ones removed. -/
def settled : List Record → List Record
  | [] => []
  | r :: rs => (if r.isLive && isSuperseded r rs then r.removed else r) :: settled rs

@[simp] lemma settled_nil : settled [] = [] := rfl

lemma exists_mem_id_settled {id : Word} (hid : id ≠ removedId) (rs : List Record) :
    (∃ r ∈ settled rs, r.id = id) → ∃ r ∈ rs, r.id = id := by
  induction rs with
  | nil => simp
  | cons r rs ih =>
    rintro ⟨x, hx, hxid⟩
    rw [settled] at hx
    rcases List.mem_cons.1 hx with rfl | hx
    · split at hxid
      · exact absurd hxid.symm hid
      · exact ⟨r, List.mem_cons_self, hxid⟩
    · obtain ⟨y, hy, hyid⟩ := ih ⟨x, hx, hxid⟩
      exact ⟨y, List.mem_cons_of_mem _ hy, hyid⟩

lemma distinct_settled (rs : List Record) : Distinct (settled rs) := by
  induction rs with
  | nil => exact distinct_nil
  | cons r rs ih =>
    rw [settled]
    refine List.Pairwise.cons ?_ ih
    intro x hx
    split
    · simp
    · rename_i h
      intro hlive he
      obtain ⟨y, hy, hyid⟩ := exists_mem_id_settled (Record.isLive_iff.1 hlive) rs
        ⟨x, hx, he.symm⟩
      apply h
      rw [hlive, Bool.true_and, isSuperseded, List.any_eq_true]
      exact ⟨y, hy, beq_iff_eq.2 hyid⟩

/-! ### Entries of survivors -/

lemma remove_entries (m : Memory) (id : Word) (rs : List Record) :
    (entries m rs).remove id = entries m (rs.filter (·.id != id)) := by
  rw [Contents.remove, entries, entries, List.filter_map]
  rfl

/-- An appended record puts its entry last, in place of the one there was. -/
lemma entries_survivors_concat (m : Memory) (hr : r.isLive = true) :
    entries m (survivors (rs ++ [r])) =
      (entries m (survivors rs)).put r.id (r.payload m) := by
  rw [survivors_concat hr, entries_append, ← remove_entries]
  rfl

end FlashStore
