import OhMySockets.CsvFields
import OhMySockets.Ring

/-! # Reading back a printed file

A list of 16-bit integers is printed in decimal, with commas and newlines between the numbers, and
read by `helper_cycle_read_from_csv_file` lap after lap.

* `Ready.cycleCalls`: what a sequence of calls stores, whatever the numbers are;
* `readsCyclically_iff`: this is the list over and over, whatever stands behind the scratch array,
  exactly when every number that is read is greater than -10000. -/

namespace OhMySockets

open ByteMemory Decimal WhileLoop

/-- The printed forms of a list: separators between the numbers, and perhaps a newline at the end. -/
inductive CsvText : List Int16 → List UInt8 → Prop where
  | last (w : Int16) : CsvText [w] (printInt w.toInt)
  | lastNewline (w : Int16) : CsvText [w] (printInt w.toInt ++ [10])
  | cons (w : Int16) {v : List Int16} {seps text : List UInt8} (hne : seps ≠ [])
      (hseps : ∀ b ∈ seps, isSeparator b = true) (h : CsvText v text) :
      CsvText (w :: v) (printInt w.toInt ++ (seps ++ text))

/-- Successive calls of `helper_cycle_read_from_csv_file`. -/
def cycleCalls (F : CsvFile) (fuel : ℕ) : List UInt32 → FileState → Option (List CycleResult)
  | [], _ => some []
  | size :: sizes, s =>
      (helperCycleReadFromCsvFile F size fuel s).bind fun r =>
        (cycleCalls F fuel sizes r.state).map fun rs => r :: rs

/-- The number of elements that calls of these sizes ask for. -/
def elementsCount (sizes : List UInt32) : ℕ := (sizes.map fun size => (size / 2).toNat).sum

/-- The `k`-th number of the list read over and over. -/
def cyclic (v : List Int16) (k : ℕ) : Int16 := v.getD (k % v.length) 0

/-- From the start of the file on all calls succeed and store the list over and over. -/
def ReadsCyclically (v : List Int16) (content : List UInt8) (sizes : List UInt32) : Prop :=
  ∀ behind, ∃ rs, Returns (fun fuel => cycleCalls ⟨content, behind⟩ fuel sizes ⟨0, 0, 0⟩) rs ∧
    (∀ r ∈ rs, r.status = 0) ∧
    rs.flatMap (fun r => r.stored) = (List.range (elementsCount sizes)).map (cyclic v)

/-! ### Positions in a printed file -/

section positions

variable {v : List Int16} {content text rest : List UInt8} {w : Int16} {j pos : ℕ}

/-- What stands behind a printed number, when the numbers `v` follow. -/
inductive Behind : List Int16 → List UInt8 → Prop where
  | nothing : Behind [] []
  | newline : Behind [] [10]
  | next {v : List Int16} {b : UInt8} {seps text : List UInt8} (hb : isSeparator b = true)
      (hseps : ∀ b ∈ seps, isSeparator b = true) (h : CsvText v text) : Behind v (b :: (seps ++ text))

theorem CsvText.uncons (h : CsvText (w :: v) text) :
    ∃ rest, text = printInt w.toInt ++ rest ∧ Behind v rest := by
  cases h with
  | last => exact ⟨[], (List.append_nil _).symm, Behind.nothing⟩
  | lastNewline => exact ⟨[10], rfl, Behind.newline⟩
  | @cons _ _ seps text hne hseps h =>
      cases seps with
      | nil => exact absurd rfl hne
      | cons b seps =>
          have htail : ∀ c ∈ seps, isSeparator c = true := fun c hc => hseps c (List.mem_cons_of_mem b hc)
          exact ⟨_, rfl, Behind.next (hseps b List.mem_cons_self) htail h⟩

theorem CsvText.ne_nil (h : CsvText v text) : v ≠ [] := by
  cases h <;> exact List.cons_ne_nil _ _

theorem Behind.head_isDigit (h : Behind v rest) : ∀ b ∈ rest.head?, isDigit b = false := by
  intro b hb
  cases h with
  | nothing => cases hb
  | newline =>
      cases hb
      rfl
  | next hsep _ _ =>
      cases hb
      exact isDigit_of_isSeparator hsep

theorem firstNumber_separators {seps : List UInt8} (hseps : ∀ b ∈ seps, isSeparator b = true) (u : List UInt8) :
    firstNumber (seps ++ u) = firstNumber u := by
  induction seps with
  | nil => rfl
  | cons b seps ih =>
      have hb : ¬ isNumberByte 0 b = true := by
        intro hnumber
        have hsep := hseps b List.mem_cons_self
        rw [isSeparator_of_isNumberByte hnumber] at hsep
        cases hsep
      rw [List.cons_append, firstNumber, if_neg hb]
      exact ih fun c hc => hseps c (List.mem_cons_of_mem b hc)

theorem CsvText.firstNumber (h : CsvText (w :: v) text) :
    ∃ rest, OhMySockets.firstNumber text = some (printInt w.toInt, rest) ∧ Behind v rest := by
  obtain ⟨rest, rfl, hrest⟩ := h.uncons
  exact ⟨rest, firstNumber_numeral (numeral_printInt _) hrest.head_isDigit, hrest⟩

/-- The position is in front of number `j`, or at the end of the file and `j` is 0. -/
inductive AtNumber (v : List Int16) (content : List UInt8) (j pos : ℕ) : Prop where
  | before {seps text : List UInt8} (hdrop : content.drop pos = seps ++ text)
      (hseps : ∀ b ∈ seps, isSeparator b = true) (h : CsvText (v.drop j) text) : AtNumber v content j pos
  | wrap (hdrop : content.drop pos = []) (hj : j = 0) : AtNumber v content j pos

theorem AtNumber.first (htext : CsvText v content) : AtNumber v content 0 0 := by
  have hdrop : content.drop 0 = [] ++ content := rfl
  exact AtNumber.before hdrop (by simp) htext

theorem AtNumber.nextNumber (h : AtNumber v content j pos) (htext : CsvText v content) (hj : j < v.length) :
    ∃ rest, OhMySockets.nextNumber content pos = some (printInt v[j].toInt, rest) ∧
      Behind (v.drop (j + 1)) rest := by
  unfold OhMySockets.nextNumber
  cases h with
  | before hdrop hseps h =>
      rw [List.drop_eq_getElem_cons hj] at h
      obtain ⟨rest, hfirst, hrest⟩ := h.firstNumber
      exact ⟨rest, by rw [hdrop, firstNumber_separators hseps, hfirst, Option.some_or], hrest⟩
  | wrap hdrop hj0 =>
      subst hj0
      rw [← List.drop_zero (l := v), List.drop_eq_getElem_cons hj] at htext
      obtain ⟨rest, hfirst, hrest⟩ := htext.firstNumber
      exact ⟨rest, by rw [hdrop, hfirst]; rfl, hrest⟩

theorem drop_posAfter {skipped : List UInt8} (hcontent : content = skipped ++ rest) (hrest : rest ≠ []) :
    content.drop (posAfter content rest) = rest.tail := by
  have hlen : content.length - rest.length = skipped.length := by
    rw [hcontent, List.length_append, Nat.add_sub_cancel]
  unfold posAfter
  rw [if_neg hrest, hlen, ← List.tail_drop, hcontent, List.drop_left]

/-- Behind number `j` the position is that of the number after it, in the next lap if need be. -/
theorem Behind.atNumber (h : Behind (v.drop (j + 1)) rest) (htext : CsvText v content) {skipped : List UInt8}
    (hcontent : content = skipped ++ rest) (hj : j < v.length) :
    AtNumber v content (if j + 1 = v.length then 0 else j + 1) (posAfter content rest) := by
  generalize hd : v.drop (j + 1) = d at h
  cases h with
  | nothing =>
      rw [if_pos (Nat.le_antisymm hj (List.drop_eq_nil_iff.mp hd))]
      exact AtNumber.first htext
  | newline =>
      rw [if_pos (Nat.le_antisymm hj (List.drop_eq_nil_iff.mp hd))]
      exact AtNumber.wrap (drop_posAfter hcontent (List.cons_ne_nil _ _)) rfl
  | next hb hseps htail =>
      have hne : j + 1 ≠ v.length := by
        intro heq
        rw [heq, List.drop_length] at hd
        exact htail.ne_nil hd.symm
      rw [if_neg hne]
      exact AtNumber.before (drop_posAfter hcontent (List.cons_ne_nil _ _)) hseps (hd ▸ htail)

end positions

/-! ### What is stored -/

section run

variable {v : List Int16} {F : CsvFile} {s : FileState} {k count : ℕ}

/-- The string that is converted for a number. -/
def printed (behind : List UInt8) (w : Int16) : List UInt8 := scanned behind (printInt w.toInt)

/-- The value that is stored for it. -/
def storedFor (behind : List UInt8) (w : Int16) : Int16 := Int16.ofInt (leadingInt (printed behind w))

/-- The state before the `k`-th number is read. -/
structure Ready (v : List Int16) (F : CsvFile) (k : ℕ) (s : FileState) : Prop where
  atNumber : AtNumber v F.content (k % v.length) s.pos
  errno : s.errno = 0
  calls : s.calls = k

theorem cyclic_eq (h : k % v.length < v.length) : v[k % v.length] = cyclic v k := by
  unfold cyclic
  rw [List.getD_eq_getElem?_getD, List.getElem?_eq_getElem h, Option.getD_some]

theorem Ready.start (htext : CsvText v F.content) : Ready v F 0 ⟨0, 0, 0⟩ := by
  refine ⟨?_, rfl, rfl⟩
  rw [Nat.zero_mod]
  exact AtNumber.first htext

theorem printInt_length_le (w : Int16) : (printInt w.toInt).length ≤ 6 := by
  have hle := Int16.le_toInt w
  have hlt := Int16.toInt_lt w
  rw [printInt_length_le_iff (k := 5) (by decide)]
  omega

theorem Ready.read (h : Ready v F k s) (htext : CsvText v F.content)
    (hrange : ¬ OutOfRange (printed (F.behind k) (cyclic v k))) :
    ∃ s', Returns (fun fuel => helperReadInt16FromCsvFile F fuel s)
      ⟨0, some (storedFor (F.behind k) (cyclic v k)), s'⟩ ∧ Ready v F (k + 1) s' := by
  have hpos : 0 < v.length := List.length_pos_iff.mpr htext.ne_nil
  have hj : k % v.length < v.length := Nat.mod_lt k hpos
  obtain ⟨rest, hnext, hrest⟩ := h.atNumber.nextNumber htext hj
  rw [cyclic_eq hj] at hnext
  have hread := read_returns_scanned hnext (printInt_length_le _)
  rw [h.calls] at hread
  have hconvert := convert_of_inRange (s := ⟨posAfter F.content rest, s.errno, k + 1⟩) hrange
    (by rw [h.errno]; rfl)
  refine ⟨⟨posAfter F.content rest, s.errno, k + 1⟩, hconvert ▸ hread, ?_, h.errno, rfl⟩
  obtain ⟨skipped, hcontent⟩ := nextNumber_append hnext
  rw [Ring.succ_mod k hpos]
  exact hrest.atNumber htext (hcontent.trans (List.append_assoc _ _ _).symm) hj

/-- **One call** reads its numbers. -/
theorem Ready.readElements (h : Ready v F k s) (htext : CsvText v F.content)
    (hrange : ∀ i, k ≤ i → i < k + count → ¬ OutOfRange (printed (F.behind i) (cyclic v i))) :
    ∃ s', Returns (fun fuel => OhMySockets.readElements F fuel count s)
      ⟨0, (List.range' k count).map fun i => storedFor (F.behind i) (cyclic v i), s'⟩ ∧
      Ready v F (k + count) s' := by
  induction count generalizing k s with
  | zero => exact ⟨s, returns_const _, h⟩
  | succ count ih =>
      obtain ⟨s', hread, hs'⟩ := h.read htext (hrange k (Nat.le_refl k) (by omega))
      obtain ⟨s'', hrest, hs''⟩ := ih hs' fun i hi hlt => hrange i (by omega) (by omega)
      refine ⟨s'', readElements_succ hread rfl hrest, ?_⟩
      rw [Nat.add_comm count, ← Nat.add_assoc]
      exact hs''

/-- **A sequence of calls** reads on where the last one stopped. -/
theorem Ready.cycleCalls {sizes : List UInt32} (h : Ready v F k s) (htext : CsvText v F.content)
    (heven : ∀ size ∈ sizes, size % 2 = 0)
    (hrange : ∀ i, k ≤ i → i < k + elementsCount sizes → ¬ OutOfRange (printed (F.behind i) (cyclic v i))) :
    ∃ rs, Returns (fun fuel => OhMySockets.cycleCalls F fuel sizes s) rs ∧ (∀ r ∈ rs, r.status = 0) ∧
      rs.flatMap (fun r => r.stored) =
        (List.range' k (elementsCount sizes)).map fun i => storedFor (F.behind i) (cyclic v i) := by
  induction sizes generalizing k s with
  | nil => exact ⟨[], returns_const _, by simp, rfl⟩
  | cons size sizes ih =>
      have hcount : elementsCount (size :: sizes) = (size / 2).toNat + elementsCount sizes := rfl
      rw [hcount] at hrange ⊢
      have hfirst : ∀ i, k ≤ i → i < k + (size / 2).toNat → ¬ OutOfRange (printed (F.behind i) (cyclic v i)) :=
        fun i hi hlt => hrange i hi (by omega)
      obtain ⟨s', hcall, hs'⟩ := h.readElements htext hfirst
      obtain ⟨rs, hrs, hstatus, hstored⟩ := ih hs' (fun x hx => heven x (List.mem_cons_of_mem size hx))
        fun i hi hlt => hrange i (by omega) (by omega)
      simp only [← helperCycleReadFromCsvFile_even (heven size List.mem_cons_self)] at hcall
      refine ⟨_, hcall.bind (hrs.map (List.cons _)), ?_, ?_⟩
      · intro r hr
        rcases List.mem_cons.mp hr with rfl | hr
        · rfl
        · exact hstatus r hr
      · rw [List.flatMap_cons, hstored, ← List.map_append, List.range'_append_1]

/-! ### When it is the list -/

/-- A number greater than -10000 leaves room for its terminator and is stored as it is. -/
theorem storedFor_of_lt {w : Int16} (h : -10000 < w.toInt) (behind : List UInt8) :
    ¬ OutOfRange (printed behind w) ∧ storedFor behind w = w := by
  have hlt := Int16.toInt_lt w
  have hlen : (printInt w.toInt).length ≤ 5 := by
    rw [printInt_length_le_iff (k := 4) (by decide)]
    omega
  have hstr : printed behind w = printInt w.toInt := if_pos (Nat.lt_succ_of_le hlen)
  unfold storedFor
  rw [hstr, leadingInt_numeral_self (numeral_printInt _), Int16.ofInt_toInt]
  exact ⟨inRange_of_length_le (Nat.le_trans hlen (by decide)), rfl⟩

/-- A number of six bytes runs on in a digit behind the array. -/
theorem storedFor_of_le {w : Int16} (h : w.toInt ≤ -10000) : storedFor [48] w ≠ w := by
  have hlong : ¬ (printInt w.toInt).length ≤ 5 := by
    rw [printInt_length_le_iff (k := 4) (by decide)]
    omega
  have hstr : printed [48] w = printInt w.toInt ++ [48] := if_neg fun hlt => hlong (Nat.le_of_lt_succ hlt)
  have hten := leadingInt_numeral_self (numeral_printInt w.toInt).concat_zero
  intro heq
  have htoInt := congrArg Int16.toInt heq
  have hle := Int16.le_toInt w
  unfold storedFor at htoInt
  rw [hstr, hten, Int16.toInt_ofInt, Int.bmod_def, show Int16.size = 65536 from rfl] at htoInt
  split_ifs at htoInt <;> omega

/-- **The calls store the list over and over, whatever stands behind the scratch array, exactly when
every number that they read is greater than -10000.** -/
theorem readsCyclically_iff {content : List UInt8} {sizes : List UInt32} (htext : CsvText v content)
    (heven : ∀ size ∈ sizes, size % 2 = 0) :
    ReadsCyclically v content sizes ↔ ∀ k < elementsCount sizes, -10000 < (cyclic v k).toInt := by
  constructor
  · intro h k hk
    by_contra hle
    -- behind the array stands a digit
    have hrange : ∀ i, ¬ OutOfRange (printed [48] (cyclic v i)) := by
      intro i
      have hlen := scanned_length_le [48] (printInt (cyclic v i).toInt)
      exact inRange_of_length_le
        (Nat.le_trans hlen (Nat.le_trans (Nat.add_le_add_right (printInt_length_le _) 1) (by decide)))
    obtain ⟨rs, hrs, -, hstored⟩ := h fun _ => [48]
    obtain ⟨rs', hrs', -, hstored'⟩ :=
      (Ready.start (F := ⟨content, fun _ => [48]⟩) htext).cycleCalls htext heven fun i _ _ => hrange i
    rw [← hrs.unique hrs', hstored, ← List.range_eq_range', List.map_inj_left] at hstored'
    exact storedFor_of_le (Int.not_lt.mp hle) (hstored' k (List.mem_range.mpr hk)).symm
  · intro h behind
    obtain ⟨rs, hrs, hstatus, hstored⟩ :=
      (Ready.start (F := ⟨content, behind⟩) htext).cycleCalls htext heven fun i _ hi =>
        (storedFor_of_lt (h i (by omega)) _).1
    refine ⟨rs, hrs, hstatus, ?_⟩
    rw [hstored, ← List.range_eq_range', List.map_inj_left]
    exact fun i hi => (storedFor_of_lt (h i (List.mem_range.mp hi)) _).2

theorem readsCyclically_iff_two_calls :
    ReadsCyclically [7, -42] [55, 44, 45, 52, 50, 10] [2, 4] ↔
      ∀ k < elementsCount [2, 4], -10000 < (cyclic [7, -42] k).toInt := by
  have hseps : ∀ b ∈ [(44 : UInt8)], isSeparator b = true := by simp [isSeparator]
  have htext : CsvText [7, -42] [55, 44, 45, 52, 50, 10] :=
    CsvText.cons 7 (List.cons_ne_nil _ _) hseps (CsvText.lastNewline (-42))
  exact readsCyclically_iff htext (by simp)

/-- The file `-32768`, with the digit `0` behind the array, is read as 0. -/
theorem minimum_misread :
    CsvText [-32768] [45, 51, 50, 55, 54, 56] ∧
      Returns (fun fuel => cycleCalls ⟨[45, 51, 50, 55, 54, 56], fun _ => [48]⟩ fuel [2] ⟨0, 0, 0⟩)
        [⟨0, [0], ⟨0, 0, 1⟩⟩] ∧
      ¬ ReadsCyclically [-32768] [45, 51, 50, 55, 54, 56] [2] := by
  have hcalls : Returns (fun fuel => cycleCalls ⟨[45, 51, 50, 55, 54, 56], fun _ => [48]⟩ fuel [2] ⟨0, 0, 0⟩)
      [⟨0, [0], ⟨0, 0, 1⟩⟩] := by
    have hnext : nextNumber [45, 51, 50, 55, 54, 56] 0 = some ([45, 51, 50, 55, 54, 56], []) := rfl
    have hread := read_returns_scanned (F := ⟨[45, 51, 50, 55, 54, 56], fun _ => [48]⟩) (s := ⟨0, 0, 0⟩)
      hnext (by decide)
    have hnone : Returns (fun fuel => readElements ⟨[45, 51, 50, 55, 54, 56], fun _ => [48]⟩ fuel 0 ⟨0, 0, 1⟩)
        ⟨0, [], ⟨0, 0, 1⟩⟩ := returns_const _
    have hcall := readElements_succ hread rfl hnone
    exact hcall.bind (g := fun r fuel => (cycleCalls _ fuel [] r.state).map fun rs => r :: rs) (returns_const _)
  refine ⟨CsvText.last (-32768), hcalls, fun h => ?_⟩
  obtain ⟨rs, hrs, -, hstored⟩ := h fun _ => [48]
  rw [hrs.unique hcalls] at hstored
  revert hstored
  decide

end run

end OhMySockets
