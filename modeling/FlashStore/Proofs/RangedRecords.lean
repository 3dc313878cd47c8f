import FlashStore.Checked.Store
import FlashStore.Proofs.Encoding
import FlashStore.Proofs.Grammar
import FlashStore.Proofs.Outcome

/-!
# Records in range

Where the addresses of records fit 32 bits, the sequences of programs and the loops over records
that compute them in 32 bits do what those over exact numbers do. This holds on any device, whatever
it makes of the programs.
-/

namespace FlashStore

/-! ### Operations that do not fault -/

namespace CheckedM

variable {ε σ α β : Type} {y : CheckedM ε σ α} {g : α → CheckedM ε σ β} {a : α} {s s' : σ}

lemma bind_of_ok (h : y s = some (.ok a s')) : (y >>= g) s = g a s' := by
  rw [bind_apply, h]

lemma bind_of_error {e : ε} (h : y s = some (.error e s')) :
    (y >>= g) s = some (.error e s') := by
  rw [bind_apply, h]

lemma bind_of_fault (h : y s = none) : (y >>= g) s = none := by
  rw [bind_apply, h]

lemma sum_bind {n : Option α} (hn : n = some a) : (liftM n >>= g) s = g a s := by
  subst hn
  rfl

lemma sum_bind_of_fault {n : Option α} (hn : n = none) : (liftM n >>= g) s = none := by
  subst hn
  rfl

end CheckedM

section Agrees

variable {ε σ α β : Type} {P : σ → Prop} {x : EStateM ε σ α} {y : CheckedM ε σ α} {s : σ}

/-- An operation with sums in 32 bits does not fault: it does what the exact one does. However that
ends, the property holds. -/
structure Agrees (P : σ → Prop) (y : CheckedM ε σ α) (x : EStateM ε σ α) (s : σ) : Prop where
  run_eq : y s = some (x.run s)
  keeps : Ensures x s (fun _ s' => P s') (fun _ s' => P s')

namespace Agrees

lemma pure {a : α} (hs : P s) : Agrees P (Pure.pure a : CheckedM ε σ α) (Pure.pure a) s := ⟨rfl, hs⟩

lemma throw {e : ε} (hs : P s) :
    Agrees P (MonadExcept.throw e : CheckedM ε σ α) (MonadExcept.throw e) s := ⟨rfl, hs⟩

lemma modify {f : σ → σ} (hs : P (f s)) :
    Agrees P (modify f : CheckedM ε σ PUnit) (modify f) s := ⟨rfl, hs⟩

lemma lift (h : Ensures x s (fun _ s' => P s') (fun _ s' => P s')) :
    Agrees P (.lift x) x s := ⟨rfl, h⟩

lemma bind {f : α → EStateM ε σ β} {g : α → CheckedM ε σ β} (hx : Agrees P y x s)
    (hf : ∀ a s', x.run s = .ok a s' → P s' → Agrees P (g a) (f a) s') :
    Agrees P (y >>= g) (x >>= f) s := by
  cases hrun : x.run s with
  | ok a s' =>
    have hnext := hf a s' hrun (hx.keeps.of_ok hrun)
    refine ⟨?_, hnext.keeps.congr (by rw [EStateM.run_bind, hrun])⟩
    rw [EStateM.run_bind, CheckedM.bind_of_ok (hx.run_eq.trans (congrArg some hrun)), hrun]
    exact hnext.run_eq
  | error e s' =>
    refine ⟨?_, .intro_error (by rw [EStateM.run_bind, hrun]) (hx.keeps.of_error hrun)⟩
    rw [EStateM.run_bind, CheckedM.bind_of_error (hx.run_eq.trans (congrArg some hrun)), hrun]

lemma get_bind {f : σ → EStateM ε σ α} {g : σ → CheckedM ε σ α} (h : Agrees P (g s) (f s) s) :
    Agrees P (get >>= g) (get >>= f) s := ⟨h.run_eq, h.keeps⟩

/-- The exact operation may look at the state once more. -/
lemma of_get_bind {f : σ → EStateM ε σ α} (h : Agrees P y (f s) s) : Agrees P y (get >>= f) s :=
  ⟨h.run_eq, h.keeps⟩

lemma congr {x' : EStateM ε σ α} (h : Agrees P y x' s) (hrun : x.run s = x'.run s) :
    Agrees P y x s := ⟨by rw [hrun]; exact h.run_eq, h.keeps.congr hrun⟩

/-- Two first operations may differ in what they return. -/
lemma ok_bind {γ : Type} {y : CheckedM ε σ β} {x : EStateM ε σ γ} {g : β → CheckedM ε σ α}
    {f : γ → EStateM ε σ α} {b : β} {c : γ} {s' : σ} (hy : y s = some (.ok b s'))
    (hx : x.run s = .ok c s') (h : Agrees P (g b) (f c) s') : Agrees P (y >>= g) (x >>= f) s := by
  refine ⟨?_, h.keeps.congr (by rw [EStateM.run_bind, hx])⟩
  rw [EStateM.run_bind, CheckedM.bind_of_ok hy, hx]
  exact h.run_eq

/-- A sum that fits hands its value on. -/
lemma sum_bind {n : Option β} {b : β} {g : β → CheckedM ε σ α} (hn : n = some b)
    (h : Agrees P (g b) x s) : Agrees P (liftM n >>= g) x s := by
  subst hn
  exact ⟨h.run_eq, h.keeps⟩

/-- A sum that fits is the result. -/
lemma sum {n : Option α} {a : α} (hn : n = some a) (hs : P s) :
    Agrees P (liftM n : CheckedM ε σ α) (Pure.pure a) s := by
  subst hn
  exact ⟨rfl, hs⟩

lemma ite {c : Prop} [Decidable c] {x' : EStateM ε σ α} {y' : CheckedM ε σ α}
    (hx : c → Agrees P y x s) (hx' : ¬ c → Agrees P y' x' s) :
    Agrees P (if c then y else y') (if c then x else x') s := by
  split
  · exact hx ‹_›
  · exact hx' ‹_›

lemma tryCatch {f : ε → EStateM ε σ α} {g : ε → CheckedM ε σ α} (hx : Agrees P y x s)
    (hf : ∀ e s', P s' → Agrees P (g e) (f e) s') :
    Agrees P (MonadExcept.tryCatch y g) (MonadExcept.tryCatch x f) s := by
  have hkeeps := hx.keeps.tryCatch (h := f) fun e s' hs' => (hf e s' hs').keeps
  refine ⟨?_, hkeeps⟩
  show MonadExcept.tryCatch y g s = some ((EStateM.tryCatch x f).run s)
  rw [CheckedM.tryCatch_apply, hx.run_eq]
  cases hrun : x.run s with
  | ok a s' =>
    simp only [EStateM.run, EStateM.tryCatch, show x s = _ from hrun]
  | error e s' =>
    simp only [EStateM.run, EStateM.tryCatch, show x s = _ from hrun]
    exact (hf e s' (hx.keeps.of_error hrun)).run_eq

lemma discard (hx : Agrees P y x s) : Agrees P (discard y) (discard x) s := by
  have hbind : (Functor.discard x).run s = (x >>= fun _ => Pure.pure ⟨⟩).run s := by
    show EStateM.map (Function.const α PUnit.unit) x s = EStateM.bind x (fun _ => Pure.pure ()) s
    unfold EStateM.map EStateM.bind
    cases x s <;> rfl
  exact (hx.bind fun _ _ _ hs' => .pure hs').congr hbind

lemma forM {f : α → EStateM ε σ PUnit} {g : α → CheckedM ε σ PUnit} {l : List α} (hs : P s)
    (hf : ∀ a ∈ l, ∀ s', P s' → Agrees P (g a) (f a) s') : Agrees P (l.forM g) (l.forM f) s := by
  induction l generalizing s with
  | nil => exact .pure hs
  | cons a l ih =>
    refine (hf a List.mem_cons_self s hs).bind fun _ s' _ hs' => ?_
    exact ih hs' fun a' ha' => hf a' (List.mem_cons_of_mem _ ha')

end Agrees

end Agrees

/-! ### Programs -/

section Programs

variable {δ α : Type} {d : δ} {a base i : Nat} {id : Word} {data : List UInt8} {r : Record}
  {rs : List Record} {ws : List Word}

/-- On a device there is nothing that is to be kept. -/
abbrev AgreesOn (y : CheckedM StoreError δ α) (x : ProgramM δ α) (d : δ) : Prop :=
  Agrees (fun _ => True) y x d

lemma agreesOn_lift (x : ProgramM δ α) (d : δ) : AgreesOn (.lift x) x d :=
  .lift ((Ensures.self x d).mono (fun _ _ _ => trivial) fun _ _ _ => trivial)

lemma agreesOn_pure (b : α) (d : δ) : AgreesOn (pure b) (pure b) d := .pure trivial

variable [FlashDevice δ]

lemma wordAddress?_of_lt (h : base + 4 * i < 0x100000000) :
    wordAddress? base i = some (base + 4 * i) := by
  rw [wordAddress?, ranged_of_lt (by omega)]
  exact ranged_of_lt h

lemma agreesOn_programValue (h : a + 4 * (data.length / 4) < 0x100000000) (d : δ) :
    AgreesOn (programValue? a data) (programWords a (packWords data)) d := by
  fun_induction programValue? (δ := δ) a data generalizing d with
  | case1 a b₀ b₁ b₂ b₃ rest ih =>
    simp only [List.length_cons] at h
    rw [packWords, programWords_cons]
    refine (agreesOn_lift _ d).bind fun _ d' _ _ => ?_
    exact .sum_bind (ranged_of_lt (by omega)) (ih (a + 4) (by omega) d')
  | case2 a => exact agreesOn_pure _ d
  | case3 a tail hcons hnil =>
    have hpack : packWords tail = [Word.ofBytes tail] := by
      match tail with
      | [] => exact (hnil rfl).elim
      | [_] | [_, _] | [_, _, _] => rfl
      | b₀ :: b₁ :: b₂ :: b₃ :: rest => exact (hcons b₀ b₁ b₂ b₃ rest rfl).elim
    rw [hpack, programWords_cons, programWords_nil, bind_pure_unit]
    exact agreesOn_lift _ d

lemma agreesOn_programBehind (h : base + 4 * (i + ws.length) ≤ 0x100000000) (d : δ) :
    AgreesOn (programBehind? base i ws) (programWords (base + 4 * i) ws) d := by
  induction ws generalizing i d with
  | nil => exact agreesOn_pure _ d
  | cons w ws ih =>
    rw [List.length_cons] at h
    have hnext : base + 4 * i + 4 = base + 4 * (i + 1) := by omega
    rw [programBehind?, programWords_cons, hnext]
    refine .sum_bind (wordAddress?_of_lt (by omega)) ?_
    exact (agreesOn_lift _ d).bind fun _ d' _ _ => ih (by omega) d'

/-- The span of a value is the exact one, and does not exist if that does not fit 32 bits. -/
lemma valueSpan?_cases (data : List UInt8) :
    (∃ span, valueSpan? data = some span ∧ span.toNat = recordSpan data.length) ∨
      valueSpan? data = none ∧ 0x100000000 ≤ recordSpan data.length := by
  have hround := le_roundToWords data.length
  unfold valueSpan?
  by_cases hlen : data.length < 0x100000000
  · have hnat : (UInt32.ofNat data.length).toNat = data.length := toNat_ofNat_length hlen
    rw [if_pos hlen]
    cases hspan : recordSpan? (UInt32.ofNat data.length) with
    | some span => exact .inl ⟨span, rfl, by rw [toNat_of_recordSpan? hspan, hnat]⟩
    | none =>
      refine .inr ⟨rfl, ?_⟩
      by_contra hlt
      obtain ⟨span, hspan'⟩ := exists_recordSpan? (n := UInt32.ofNat data.length)
        (by rw [hnat]; omega)
      cases hspan.symm.trans hspan'
  · refine .inr ⟨if_neg hlen, ?_⟩
    simp only [recordSpan, payloadOffset]
    omega

lemma Record.payloadAddress?_of_lt (h : r.payloadAddress < 0x100000000) :
    r.payloadAddress? = some r.payloadAddress := ranged_of_lt h

/-- A record is laid out around the programs of its payload. -/
lemma agreesOn_commitRecord {payload : CheckedM StoreError δ Unit}
    (h : r.payloadAddress < 0x100000000)
    (hpayload : AgreesOn payload (programWords r.payloadAddress ws) d) :
    AgreesOn (commitRecord? r payload) (commitRecord r ws) d := by
  have hpay := r.address_add_eight
  have hlength : ranged (r.address + lengthOffset) = some r.lengthAddress :=
    ranged_of_lt (by simp only [lengthOffset]; omega)
  have hid : ranged (r.address + idOffset) = some r.idAddress :=
    ranged_of_lt (by simp only [idOffset]; omega)
  refine hpayload.bind fun _ d' _ _ => .sum_bind hlength ?_
  refine (agreesOn_lift _ d').bind fun _ d'' _ _ => .sum_bind hid ?_
  exact agreesOn_lift _ d''

lemma agreesOn_writeRecord (h : a + recordSpan data.length < 0x100000000) (d : δ) :
    AgreesOn (writeRecord? a id data) (writeRecord a id data) d := by
  obtain ⟨span, hspan, hnat⟩ := (valueSpan?_cases data).resolve_right (by omega)
  have hround := le_roundToWords data.length
  simp only [recordSpan, payloadOffset] at h hnat
  have hpay : Record.payloadAddress ⟨a, id, UInt32.ofNat data.length⟩ = a + 8 := rfl
  have hstop : Record.stop ⟨a, id, UInt32.ofNat data.length⟩ = a + span.toNat := by
    rw [Record.stop, Record.span, toNat_ofNat_length (by omega), hnat, recordSpan, payloadOffset]
  unfold writeRecord?
  rw [hspan]
  refine (agreesOn_commitRecord (by omega) (.sum_bind
    (Record.payloadAddress?_of_lt (by omega)) ?_)).bind fun _ d' _ _ => ?_
  · exact agreesOn_programValue (by omega) d
  · exact .sum (by rw [hstop]; exact ranged_of_lt (by omega)) trivial

/-! ### Copies and removals -/

lemma Record.wordCount?_of_lt (h : r.span < 0x100000000) : r.wordCount? = some r.wordCount := by
  have hle : payloadOffset ≤ r.span := payloadOffset_le_recordSpan _
  rw [wordCount?, span32_eq h, difference_of_le hle]
  rfl

lemma mapM_eq_some {α β : Type} {f : α → Option β} {g : α → β} {l : List α}
    (h : ∀ a ∈ l, f a = some (g a)) : l.mapM f = some (l.map g) := by
  induction l with
  | nil => rfl
  | cons a l ih =>
    rw [List.mapM_cons, h a List.mem_cons_self, ih fun b hb => h b (List.mem_cons_of_mem _ hb)]
    rfl

lemma Record.words?_of_lt (word : Nat → Word) (h : r.stop < 0x100000000) :
    r.words? word = some (r.words word) := by
  have hstop : r.stop = r.address + r.span := rfl
  have hend := r.payload_stop
  rw [words?, payloadAddress?_of_lt (by omega), wordCount?_of_lt (by omega)]
  refine mapM_eq_some fun i hi => ?_
  rw [List.mem_range] at hi
  rw [wordAddress?_of_lt (by omega)]
  rfl

lemma agreesOn_copyRecord (h : r.stop < 0x100000000) (ha : a + r.span < 0x100000000) (d : δ) :
    AgreesOn (copyRecord? r a) (copyRecord r a) d := by
  have hstop : r.stop = r.address + r.span := rfl
  have hend := Record.payload_stop { r with address := a }
  have hstop' : Record.stop { r with address := a } = a + r.span := rfl
  have hcount : Record.wordCount { r with address := a } = r.wordCount := rfl
  refine .get_bind (.sum_bind (r.words?_of_lt _ h) ?_)
  refine (agreesOn_commitRecord (by omega) (.sum_bind
    (Record.payloadAddress?_of_lt (by omega)) ?_)).bind fun _ d' _ _ => ?_
  · exact agreesOn_programBehind (i := 0) (by rw [Record.length_words]; omega) d
  · refine .sum ?_ trivial
    rw [Record.span32_eq (by omega)]
    exact ranged_of_lt ha

/-- A copy ends behind its span. -/
lemma eq_of_copyRecord {d' : δ} {z : Nat} (h : (copyRecord r a).run d = .ok z d') :
    z = a + r.span := by
  have hstop : Ensures (copyRecord r a) d (fun z _ => z = a + r.span) (fun _ _ => True) := by
    refine .get_bind (.bind (Q := fun _ _ => True) ?_ fun _ _ _ => .pure rfl)
    exact (Ensures.self _ _).mono (fun _ _ _ => trivial) fun _ _ _ => trivial
  exact hstop.of_ok h

lemma agreesOn_copyRecords (h : ∀ r ∈ rs, r.stop < 0x100000000)
    (ha : a + Record.totalSpan rs < 0x100000000) (d : δ) :
    AgreesOn (copyRecords? rs a) (copyRecords rs a) d := by
  induction rs generalizing a d with
  | nil => exact agreesOn_pure a d
  | cons r rs ih =>
    rw [Record.totalSpan_cons] at ha
    have hcopy := agreesOn_copyRecord (a := a) (h r List.mem_cons_self) (by omega) d
    refine hcopy.bind fun z d' hz _ => ?_
    obtain rfl := eq_of_copyRecord hz
    exact ih (fun r' hr' => h r' (List.mem_cons_of_mem _ hr')) (by omega) d'

lemma eq_of_copyRecords {d' : δ} {z : Nat} (h : (copyRecords rs a).run d = .ok z d') :
    z = a + Record.totalSpan rs := by
  induction rs generalizing a d with
  | nil => cases h; rfl
  | cons r rs ih =>
    rw [copyRecords, EStateM.run_bind] at h
    split at h
    · rename_i y d₁ hcopy
      obtain rfl := eq_of_copyRecord hcopy
      rw [ih h, Record.totalSpan_cons, Nat.add_assoc]
    · cases h

lemma agreesOn_removeRecord (h : r.stop < 0x100000000) (d : δ) :
    AgreesOn (removeRecord? r) (removeRecord r) d := by
  have hstop : r.stop = r.address + r.span := rfl
  have hend := r.payload_stop
  have hpay := r.address_add_eight
  have hid : ranged (r.address + idOffset) = some r.idAddress :=
    ranged_of_lt (by simp only [idOffset]; omega)
  refine .sum_bind (Record.payloadAddress?_of_lt (by omega)) ?_
  refine .sum_bind (Record.wordCount?_of_lt (by omega)) ?_
  refine (agreesOn_programBehind (i := 0) ?_ d).bind fun _ d' _ _ => ?_
  · rw [List.length_replicate]
    omega
  · exact .sum_bind hid (agreesOn_lift _ d')

lemma agreesOn_wipeBlock {block : Block} (h : block.stop < 0x100000000) (d : δ) :
    AgreesOn (wipeBlock? block) (wipeBlock block) d :=
  .sum_bind (Block.stop?_of_lt h) (agreesOn_lift _ d)

end Programs

/-! ### Loops over records -/

namespace Chain

variable {word : Nat → Word} {block : Block} {a z : Nat} {ending : Stop} {r : Record}
  {records rs : List Record}

lemma find_of_isSuperseded (ending : Stop) (h : isSuperseded r rs = true) :
    ∃ newer, find ⟨rs, ending⟩ r.id = .ok (some newer) := by
  have hsome := List.find?_isSome.2 (List.any_eq_true.1 h)
  obtain ⟨newer, hnewer⟩ := Option.isSome_iff_exists.1 hsome
  exact ⟨newer, by rw [find, hnewer]⟩

lemma find_of_not_isSuperseded (h : isSuperseded r rs = false) :
    find ⟨rs, ending⟩ r.id = ending.outcome none := by
  have hnone : rs.find? (·.id == r.id) = none := by
    rw [isSuperseded, List.any_eq_false] at h
    exact List.find?_eq_none.2 h
  rw [find, hnone]
  cases ending <;> rfl

/-- A loop that collects records with a property. -/
lemma visit_filter (p : Record → Bool) (rs found : List Record) :
    visit (fun r records => some (.yield (if p r then records ++ [r] else records))) ending rs
      found = some (found ++ rs.filter p, ending.error?) := by
  induction rs generalizing found with
  | nil => rw [visit, List.filter_nil, List.append_nil]
  | cons r rs ih =>
    rw [visit_of_yield rfl, ih]
    by_cases hp : p r = true
    · rw [if_pos hp, List.filter_cons_of_pos hp, List.append_assoc, List.singleton_append]
    · rw [if_neg hp, List.filter_cons_of_neg hp]

variable (hb : block.InRange) (h : Linked word block.stop block.first records z)
  (hz : recordAt word block.stop z = .error ending)
include hb h hz

lemma filter?_of_linked (p : Record → Bool) :
    filter? word block p = some (records.filter p, ending.error?) := by
  obtain ⟨w, hw, -⟩ := Walk.loop?_of_linked hb h hz block.isPlace_first
    (fun r records => some (.yield (if p r then records ++ [r] else records))) []
  rw [filter?, Walk.start?_eq hb, Option.bind_eq_bind, Option.bind_some, hw, visit_filter]
  rfl

section Newer

variable {before after found : List Record} (hr : records = before ++ r :: after)
include hr

lemma keepSurvivor?_of_linked : keepSurvivor? word block r found = some (.yield
    (if r.isLive && !isSuperseded r after then found ++ [r] else found)) := by
  have hnewer := findNewer?_of_linked hb h hz hr
  unfold keepSurvivor?
  cases hlive : r.isLive with
  | false => rfl
  | true =>
    rw [hnewer]
    cases hsup : isSuperseded r after with
    | true =>
      obtain ⟨newer, hfind⟩ := find_of_isSuperseded ending hsup
      rw [hfind]
      rfl
    | false =>
      rw [find_of_not_isSuperseded hsup]
      cases ending <;> rfl

lemma keepSuperseded?_of_linked (hlive : r.isLive = true → isSuperseded r after = true ∨
      ending.error? = none) :
    keepSuperseded? word block r (.ok found) = some (.yield
      (.ok (if r.isLive && isSuperseded r after then found ++ [r] else found))) := by
  have hnewer := findNewer?_of_linked hb h hz hr
  unfold keepSuperseded?
  cases hl : r.isLive with
  | false => rfl
  | true =>
    rw [hnewer]
    cases hsup : isSuperseded r after with
    | true =>
      obtain ⟨newer, hfind⟩ := find_of_isSuperseded ending hsup
      rw [hfind]
      rfl
    | false =>
      have hintact := (hlive hl).resolve_left (by rw [hsup]; exact Bool.false_ne_true)
      rw [find_of_not_isSuperseded hsup, Stop.outcome, hintact]
      rfl

lemma keepSuperseded?_of_broken {e : StoreError} (hbroken : ending.error? = some e)
    (hlive : r.isLive = true) (hsup : isSuperseded r after = false) :
    keepSuperseded? word block r (.ok found) = some (.done (.error e)) := by
  unfold keepSuperseded?
  rw [hlive, findNewer?_of_linked hb h hz hr, find_of_not_isSuperseded hsup, Stop.outcome, hbroken]
  rfl

end Newer

/-- A loop that looks for newer records keeps those that count. -/
lemma survivors?_of_linked : survivors? word block = some (survivors records) := by
  have hvisit (before rs : List Record) (hrs : records = before ++ rs) (found : List Record) :
      visit (keepSurvivor? word block) ending rs found =
        some (found ++ survivors rs, ending.error?) := by
    induction rs generalizing before found with
    | nil => rw [visit, survivors_nil, List.append_nil]
    | cons r rs ih =>
      rw [visit_of_yield (keepSurvivor?_of_linked hb h hz hrs), survivors,
        ih (before ++ [r]) (by rw [hrs, List.append_assoc, List.singleton_append])]
      split
      · rw [List.append_assoc, List.singleton_append]
      · rfl
  obtain ⟨w, hw, -⟩ := Walk.loop?_of_linked hb h hz block.isPlace_first
    (keepSurvivor? word block) []
  rw [survivors?, Walk.start?_eq hb, Option.bind_eq_bind, Option.bind_some, hw,
    hvisit [] records rfl]
  rfl

/-- A loop that looks for newer records finds the superseded ones, unless the chain breaks. -/
lemma superseded?_of_linked :
    superseded? word block = some (ending.outcome (superseded records)) := by
  have hvisit (before rs : List Record) (hrs : records = before ++ rs) (found : List Record) :
      ∃ result error, visit (keepSuperseded? word block) ending rs (.ok found) =
          some (result, error) ∧
        (resultOf result error).bind id = ending.outcome (found ++ superseded rs) := by
    -- The induction is on the records still to be visited, for any list of those found before.
    induction rs generalizing before found with
    | nil =>
      refine ⟨.ok found, ending.error?, rfl, ?_⟩
      rw [superseded_nil, List.append_nil, Stop.outcome]
      cases ending.error? <;> rfl
    | cons r rs ih =>
      by_cases hstep : r.isLive = true → isSuperseded r rs = true ∨ ending.error? = none
      · obtain ⟨result, error, hrest, houtcome⟩ := ih (before ++ [r])
          (by rw [hrs, List.append_assoc, List.singleton_append])
          (if r.isLive && isSuperseded r rs then found ++ [r] else found)
        refine ⟨result, error, ?_, ?_⟩
        · rw [visit_of_yield (keepSuperseded?_of_linked hb h hz hrs hstep), hrest]
        · rw [houtcome, superseded]
          split
          · rw [List.append_assoc, List.singleton_append]
          · rfl
      · -- a live record that nothing supersedes before the chain breaks
        simp only [Classical.not_imp, not_or, Bool.not_eq_true] at hstep
        obtain ⟨hlive, hsup, hintact⟩ := hstep
        obtain ⟨e, he⟩ := Option.ne_none_iff_exists'.1 hintact
        refine ⟨.error e, none, ?_, ?_⟩
        · rw [visit_of_done (keepSuperseded?_of_broken hb h hz hrs he hlive hsup)]
        · rw [Stop.outcome, he]
          rfl
  obtain ⟨w, hw, -⟩ := Walk.loop?_of_linked hb h hz block.isPlace_first
    (keepSuperseded? word block) (.ok [])
  obtain ⟨result, error, hrest, houtcome⟩ := hvisit [] records rfl []
  rw [superseded?, Walk.start?_eq hb, Option.bind_eq_bind, Option.bind_some, hw, hrest,
    ← List.nil_append (superseded records), ← houtcome]
  rfl

end Chain

end FlashStore
