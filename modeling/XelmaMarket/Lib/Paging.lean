import Mathlib.Data.List.Infix
import Mathlib.Data.List.Nodup
import Mathlib.Order.Lattice

/-!
# Cursor paging

A list is read in pages. A page is a window of the list behind the cursor, and yields what is found
for the items of the window; the key of the last item found is the cursor of the next page, and a
page without a cursor is the last one. Over keys in ascending order the reading is complete when no
full window without an item found stands before one; in any other order of the keys it is complete
when every page ends with the largest key so far and the next item has a larger one.
-/

namespace Paging

variable {α β κ ε : Type*}

/-- Reading on from a cursor ends, and yields these items. -/
inductive Collects (page : Option κ → Except ε (List β × Option κ)) :
    Option κ → List β → Prop where
  | last (cursor items) : page cursor = .ok (items, none) → Collects page cursor items
  | next (cursor items last rest) : page cursor = .ok (items, some last) →
      Collects page (some last) rest → Collects page cursor (items ++ rest)

section Collects

variable {page : Option κ → Except ε (List β × Option κ)} {cursor : Option κ}
  {items rest collected : List β} {last : κ}

/-- A last page is all that is read. -/
theorem collects_of_last (hpage : page cursor = .ok (items, none)) :
    Collects page cursor collected ↔ collected = items := by
  constructor
  · intro hcollects
    cases hcollects with
    | last _ _ hother =>
        cases hpage.symm.trans hother
        rfl
    | next _ _ _ _ hother =>
        cases hpage.symm.trans hother
  · rintro rfl
    exact .last _ _ hpage

/-- After a page with a cursor the reading goes on. -/
theorem Collects.unread (hcollects : Collects page cursor collected)
    (hpage : page cursor = .ok (items, some last)) :
    ∃ rest, collected = items ++ rest ∧ Collects page (some last) rest := by
  cases hcollects with
  | last _ _ hother =>
      cases hpage.symm.trans hother
  | next _ _ _ rest hother hrest =>
      cases hpage.symm.trans hother
      exact ⟨rest, rfl, hrest⟩

/-- After a page the reading goes on from its cursor. -/
theorem collects_of_next (hpage : page cursor = .ok (items, some last)) :
    Collects page cursor (items ++ rest) ↔ Collects page (some last) rest := by
  constructor
  · intro hcollects
    obtain ⟨other, hsame, hrest⟩ := hcollects.unread hpage
    rwa [List.append_cancel_left hsame]
  · exact .next _ _ _ _ hpage

end Collects

/-! ## Pages behind a cursor -/

section Pages

variable [LinearOrder κ]

/-- The position of the first item whose key is behind the cursor. -/
def resumeAt (key : α → κ) (items : List α) : Option κ → ℕ
  | none => 0
  | some cursor => items.findIdx fun item => cursor < key item

/-- Add what is found for an item to a page, and let the page end there. -/
def extend (key : α → κ) (find : α → Option β) (page : List β × Option κ) (item : α) :
    List β × Option κ :=
  match find item with
  | none => page
  | some found => (page.1 ++ [found], some (key item))

/-- What a window yields, and where the next page resumes. -/
def yieldOf (key : α → κ) (find : α → Option β) (window : List α) : List β × Option κ :=
  window.foldl (extend key find) ([], none)

/-- The page behind a cursor. -/
def pageOf (key : α → κ) (find : α → Option β) (items : List α) (limit : ℕ)
    (cursor : Option κ) : List β × Option κ :=
  yieldOf key find ((items.drop (resumeAt key items cursor)).take limit)

variable {key : α → κ} {find : α → Option β} {items front window rest : List α} {a : α}
  {limit : ℕ} {cursor : Option κ}

omit [LinearOrder κ] in
@[simp] theorem yieldOf_nil : yieldOf key find [] = ([], none) := rfl

omit [LinearOrder κ] in
theorem yieldOf_concat : yieldOf key find (window ++ [a]) =
    extend key find (yieldOf key find window) a := by
  simp [yieldOf]

omit [LinearOrder κ] in
/-- Items for which nothing is found yield nothing. -/
theorem yieldOf_append_none (hnone : ∀ b ∈ rest, find b = none) :
    yieldOf key find (window ++ rest) = yieldOf key find window := by
  induction rest using List.reverseRecOn with
  | nil => rw [List.append_nil]
  | append_singleton rest b ih =>
      have hlast : find b = none := hnone b (List.mem_concat_self)
      rw [← List.append_assoc, yieldOf_concat, extend, hlast]
      exact ih fun c hmem => hnone c (List.mem_append_left _ hmem)

omit [LinearOrder κ] in
/-- A window in which nothing is found is the last. -/
theorem yieldOf_none (hnone : ∀ b ∈ window, find b = none) :
    yieldOf key find window = ([], none) := by
  simpa using @yieldOf_append_none _ _ _ key find [] window hnone

omit [LinearOrder κ] in
/-- A window yields what is found for its items. -/
theorem yieldOf_items : (yieldOf key find window).1 = window.filterMap find := by
  induction window using List.reverseRecOn with
  | nil => rfl
  | append_singleton window b ih =>
      rw [yieldOf_concat, List.filterMap_append, extend, ← ih]
      cases hfound : find b <;> simp [hfound]

omit [LinearOrder κ] in
/-- A page ends at the last item found in its window. -/
theorem yieldOf_append_some {found : β} (hfound : find a = some found)
    (hnone : ∀ b ∈ rest, find b = none) :
    yieldOf key find (window ++ a :: rest) =
      ((window ++ a :: rest).filterMap find, some (key a)) := by
  refine Prod.ext yieldOf_items ?_
  rw [List.append_cons, yieldOf_append_none hnone, yieldOf_concat, extend, hfound]

/-- A window has a last item found, or nothing is found in it. -/
theorem last_found (find : α → Option β) (window : List α) :
    (∀ b ∈ window, find b = none) ∨
      ∃ front a rest found, window = front ++ a :: rest ∧ find a = some found ∧
        ∀ b ∈ rest, find b = none := by
  induction window using List.reverseRecOn with
  | nil => exact .inl fun _ hmem => absurd hmem List.not_mem_nil
  | append_singleton window b ih =>
      cases hfound : find b with
      | some found =>
          exact .inr ⟨window, b, [], found, rfl, hfound, fun _ hmem => absurd hmem List.not_mem_nil⟩
      | none =>
          rcases ih with hnone | ⟨front, a, rest, found, rfl, ha, hrest⟩
          · refine .inl fun c hmem => ?_
            rcases List.mem_append.mp hmem with hmem | hmem
            · exact hnone c hmem
            · rwa [List.mem_singleton.mp hmem]
          · refine .inr ⟨front, a, rest ++ [b], found, by simp, ha, fun c hmem => ?_⟩
            rcases List.mem_append.mp hmem with hmem | hmem
            · exact hrest c hmem
            · rwa [List.mem_singleton.mp hmem]

/-- Reading resumes right behind an item when its key is the largest so far and the next item has
a larger one, and only then. -/
theorem resumeAt_eq_iff : resumeAt key (front ++ a :: rest) (some (key a)) = front.length + 1 ↔
    (∀ b ∈ front, key b ≤ key a) ∧ ∀ b ∈ rest.head?, key a < key b := by
  have hfront : (front ++ [a]).findIdx (fun item => decide (key a < key item)) =
      front.length + 1 ↔ ∀ b ∈ front, key b ≤ key a := by
    have hlength : (front ++ [a]).length = front.length + 1 := by simp
    rw [← hlength, List.findIdx_eq_length]
    simp [or_imp, forall_and]
  have hbound : (front ++ [a]).findIdx (fun item => decide (key a < key item)) ≤
      front.length + 1 :=
    List.findIdx_le_length.trans_eq (by simp)
  have hrest : rest.findIdx (fun item => decide (key a < key item)) = 0 ↔
      ∀ b ∈ rest.head?, key a < key b := by
    cases rest with
    | nil => simp
    | cons b rest => by_cases hb : key a < key b <;> simp [List.findIdx_cons, hb]
  rw [resumeAt, List.append_cons, List.findIdx_append, List.length_append, List.length_singleton,
    ← hfront, ← hrest]
  split <;> omega

/-- The page behind the items read so far. -/
theorem pageOf_eq (hresume : resumeAt key (front ++ rest) cursor = front.length) :
    pageOf key find (front ++ rest) limit cursor = yieldOf key find (rest.take limit) := by
  rw [pageOf, hresume, List.drop_left]

end Pages

/-! ## Keys in ascending order -/

section Sorted

variable {present : α → Prop} {limit : ℕ} {front rest : List α} {a : α}

/-- No full window without an item present stands before an item present. -/
def Gapless (present : α → Prop) (limit : ℕ) (items : List α) : Prop :=
  ∀ rest ∈ items.tails, (∃ a ∈ rest.drop limit, present a) → ∃ a ∈ rest.take limit, present a

instance [DecidablePred present] : DecidablePred (Gapless present limit) := fun items =>
  inferInstanceAs (Decidable (∀ rest ∈ items.tails, _ → _))

/-- Without an item present there is no gap. -/
theorem gapless_of_none (hnone : ∀ b ∈ rest, ¬ present b) : Gapless present limit rest := by
  rintro tail htail ⟨b, hmem, hb⟩
  have hsuffix := (List.mem_tails _ _).mp htail
  exact absurd hb (hnone b (hsuffix.subset (List.mem_of_mem_drop hmem)))

/-- With all items present there is no gap. -/
theorem gapless_of_all (hpos : 0 < limit) (hall : ∀ b ∈ rest, present b) :
    Gapless present limit rest := by
  rintro tail htail ⟨b, hmem, -⟩
  have hsuffix := (List.mem_tails _ _).mp htail
  cases tail with
  | nil => simp at hmem
  | cons c tail =>
      refine ⟨c, ?_, hall c (hsuffix.subset List.mem_cons_self)⟩
      rw [List.take_cons hpos]
      exact List.mem_cons_self

/-- An item is in the first window when less than a window stands before it. -/
theorem mem_window (hfront : front.length < limit) : a ∈ (front ++ a :: rest).take limit := by
  rw [List.take_append, List.take_cons (by omega)]
  exact List.mem_append_right _ List.mem_cons_self

/-- Behind an item present in the first window the same gaps are left. -/
theorem gapless_append_cons (hfront : front.length < limit) (ha : present a) :
    Gapless present limit (front ++ a :: rest) ↔ Gapless present limit rest := by
  constructor
  · intro hgapless tail htail
    refine hgapless tail ((List.mem_tails _ _).mpr ?_)
    exact ((List.mem_tails _ _).mp htail).trans ⟨front ++ [a], by simp⟩
  · rintro hgapless tail htail hlater
    obtain ⟨before, hsplit⟩ := (List.mem_tails _ _).mp htail
    rcases List.append_eq_append_iff.mp hsplit with ⟨middle, hmiddle, rfl⟩ | ⟨middle, -, hrest⟩
    · have hlength : middle.length ≤ front.length := by simp [hmiddle]
      exact ⟨a, mem_window (by omega), ha⟩
    · cases middle with
      | nil =>
          obtain rfl : a :: rest = tail := hrest
          exact ⟨a, @mem_window _ _ [] _ _ (by simp; omega), ha⟩
      | cons b middle =>
          obtain ⟨-, rfl⟩ := List.cons.inj hrest
          exact hgapless tail ((List.mem_tails _ _).mpr (List.suffix_append _ _)) hlater

variable [LinearOrder κ] {key : α → κ} {find : α → Option β} {items : List α}
  {page : Option κ → Except ε (List β × Option κ)} {cursor : Option κ}

/-- Behind the items read so far the rest is read when it has no gap, and only then. -/
theorem collects_rest_iff (hsorted : items.Pairwise fun a b => key a < key b)
    (hpage : ∀ cursor, page cursor = .ok (pageOf key find items limit cursor))
    (hitems : items = front ++ rest) (hresume : resumeAt key items cursor = front.length) :
    Collects page cursor (rest.filterMap find) ↔
      Gapless (fun b => (find b).isSome = true) limit rest := by
  induction hlength : rest.length using Nat.strong_induction_on generalizing front rest cursor with
  | h length ih =>
      subst hlength
      have hcut : page cursor = .ok (yieldOf key find (rest.take limit)) := by
        rw [hpage cursor, hitems, pageOf_eq (hitems ▸ hresume)]
      rcases last_found find (rest.take limit) with hnone | ⟨before, a, after, found, hwindow, ha,
        hafter⟩
      · rw [yieldOf_none hnone] at hcut
        rw [collects_of_last hcut, List.filterMap_eq_nil_iff]
        constructor
        · exact fun hempty => gapless_of_none fun b hmem => by simp [hempty b hmem]
        · intro hgapless b hmem
          rw [← List.take_append_drop limit rest] at hmem
          rcases List.mem_append.mp hmem with hmem | hmem
          · exact hnone b hmem
          · by_contra hfound
            obtain ⟨c, hc, hpresent⟩ := hgapless rest ((List.mem_tails _ _).mpr List.suffix_rfl)
              ⟨b, hmem, Option.isSome_iff_ne_none.mpr hfound⟩
            rw [hnone c hc] at hpresent
            cases hpresent
      · have hrest : rest = before ++ a :: (after ++ rest.drop limit) := by
          conv_lhs => rw [← List.take_append_drop limit rest, hwindow]
          simp
        have hbefore : before.length < limit := by
          have hbound := List.length_take_le limit rest
          rw [hwindow, List.length_append, List.length_cons] at hbound
          omega
        rw [hwindow, yieldOf_append_some ha hafter] at hcut
        have hread : rest.filterMap find = (before ++ a :: after).filterMap find ++
            (after ++ rest.drop limit).filterMap find := by
          have hnothing : after.filterMap find = [] := List.filterMap_eq_nil_iff.mpr hafter
          have hbehind : (after ++ rest.drop limit).filterMap find =
              (rest.drop limit).filterMap find := by
            rw [List.filterMap_append, hnothing, List.nil_append]
          rw [hbehind, ← hwindow, ← List.filterMap_append, List.take_append_drop]
        have hsplit : items = (front ++ before) ++ a :: (after ++ rest.drop limit) := by
          rw [hitems, List.append_assoc, ← hrest]
        have hbehind : resumeAt key items (some (key a)) = (front ++ before ++ [a]).length := by
          rw [hsplit] at hsorted ⊢
          obtain ⟨-, hcons, hacross⟩ := List.pairwise_append.mp hsorted
          rw [List.length_append, List.length_singleton, resumeAt_eq_iff]
          refine ⟨fun b hmem => (hacross b hmem a List.mem_cons_self).le, fun b hmem => ?_⟩
          exact (List.pairwise_cons.mp hcons).1 b (List.mem_of_mem_head? hmem)
        rw [hread, collects_of_next hcut, ih _ ?_ (by rw [hsplit]; simp) hbehind rfl]
        · conv_rhs => rw [hrest]
          exact (gapless_append_cons hbefore (by simp [ha])).symm
        · conv_rhs => rw [hrest]
          simp only [List.length_append, List.length_cons]
          omega

/-- Over keys in ascending order all items found are read when there is no gap, and only then. -/
theorem collects_sorted_iff (hsorted : items.Pairwise fun a b => key a < key b)
    (hpage : ∀ cursor, page cursor = .ok (pageOf key find items limit cursor)) :
    Collects page none (items.filterMap find) ↔
      Gapless (fun b => (find b).isSome = true) limit items :=
  collects_rest_iff hsorted hpage (List.nil_append _).symm rfl

end Sorted

/-! ## Keys in any order -/

section Ranked

variable {key : α → κ} {items front init rest unread collected : List α} {a : α} {limit : ℕ}
  {page : Option κ → Except ε (List α × Option κ)} {cursor : Option κ}

/-- What is read begins with the first page. -/
theorem Collects.head?_eq {shown : List α × Option κ} (hcollects : Collects page cursor collected)
    (hpage : page cursor = .ok shown) (hsome : shown.1 ≠ []) :
    collected.head? = shown.1.head? := by
  cases hcollects with
  | last _ _ hother =>
      cases hpage.symm.trans hother
      rfl
  | next _ _ _ rest hother =>
      cases hpage.symm.trans hother
      exact List.head?_append_of_ne_nil _ hsome

/-- A page of everything is the window itself. -/
theorem yieldOf_all : yieldOf key some (init ++ [a]) = (init ++ [a], some (key a)) := by
  rw [yieldOf_append_some rfl fun _ hmem => absurd hmem List.not_mem_nil, List.filterMap_some]

variable [LinearOrder κ]

/-- The key of an item is the largest so far, and the next item has a larger one. -/
def ResumesBehind (key : α → κ) (front : List α) (a : α) (rest : List α) : Prop :=
  (∀ b ∈ front, key b ≤ key a) ∧ ∀ b ∈ rest.head?, key a < key b

/-- Reading resumes right behind every full page and behind the last item. -/
def Resumable (key : α → κ) (limit : ℕ) (items : List α) : Prop :=
  ∀ front a rest, items = front ++ a :: rest → limit ∣ front.length + 1 ∨ rest = [] →
    ResumesBehind key front a rest

omit [LinearOrder κ] in
/-- A page has no end before its last item. -/
theorem eq_of_page_end {start window position : ℕ} (hstart : limit ∣ start)
    (hend : limit ∣ position + 1) (hle : start ≤ position) (hwindow : window + 1 ≤ limit)
    (hbefore : position ≤ start + window) : position = start + window := by
  obtain ⟨pages, rfl⟩ := hstart
  obtain ⟨pages', hend⟩ := hend
  have hless : pages < pages' := Nat.lt_of_mul_lt_mul_left (by omega : limit * pages < limit * pages')
  have hnext := Nat.mul_le_mul_left limit hless
  rw [Nat.succ_eq_add_one, Nat.mul_add_one] at hnext
  omega

omit [LinearOrder κ] in
/-- The window of what is left, with its last item. -/
theorem window_split (hpos : 0 < limit) (hrest : rest ≠ []) :
    ∃ init a, rest.take limit = init ++ [a] ∧ rest = init ++ a :: rest.drop limit ∧
      init.length + 1 = min limit rest.length := by
  rcases List.eq_nil_or_concat' (rest.take limit) with hnone | ⟨init, a, hwindow⟩
  · rcases List.take_eq_nil_iff.mp hnone with hzero | hempty
    · exact absurd hzero hpos.ne'
    · exact absurd hempty hrest
  · refine ⟨init, a, hwindow, ?_, ?_⟩
    · conv_lhs => rw [← List.take_append_drop limit rest, hwindow]
      simp
    · rw [← List.length_take, hwindow, List.length_append, List.length_singleton]

/-- Where the keys are in ascending order, reading resumes everywhere. -/
theorem resumable_of_sorted (hsorted : items.Pairwise fun a b => key a < key b) :
    Resumable key limit items := by
  rintro front a rest rfl -
  obtain ⟨-, hcons, hacross⟩ := List.pairwise_append.mp hsorted
  refine ⟨fun b hmem => (hacross b hmem a List.mem_cons_self).le, fun b hmem => ?_⟩
  exact (List.pairwise_cons.mp hcons).1 b (List.mem_of_mem_head? hmem)

/-- Whoever reads a part of distinct items has resumed where that part begins. -/
theorem resumeAt_of_collects (hnodup : items.Nodup) (hpos : 0 < limit)
    (hpage : ∀ cursor, page cursor = .ok (pageOf key some items limit cursor))
    (hitems : items = front ++ rest) (hcollects : Collects page cursor rest) :
    resumeAt key items cursor = front.length := by
  have hbound : resumeAt key items cursor ≤ items.length := by
    cases cursor with
    | none => exact Nat.zero_le _
    | some last => exact List.findIdx_le_length
  obtain ⟨shown, unread, hsplit, hlength⟩ : ∃ shown unread, items = shown ++ unread ∧
      shown.length = resumeAt key items cursor :=
    ⟨_, _, (List.take_append_drop _ items).symm, List.length_take_of_le hbound⟩
  have hcut : page cursor = .ok (yieldOf key some (unread.take limit)) := by
    rw [hpage cursor, hsplit, pageOf_eq (by rw [← hsplit, hlength])]
  rw [← hlength]
  cases unread with
  | nil =>
      rw [List.take_nil] at hcut
      rw [(collects_of_last hcut).mp hcollects] at hitems
      rw [← List.append_nil shown, ← hsplit, hitems, List.append_nil]
  | cons b unread =>
      have hwindow : (yieldOf key some ((b :: unread).take limit)).1 =
          b :: unread.take (limit - 1) := by
        rw [yieldOf_items, List.filterMap_some, List.take_cons hpos]
      have hhead := hcollects.head?_eq hcut (by simp [hwindow])
      rw [hwindow, List.head?_cons] at hhead
      obtain ⟨rest, rfl⟩ := List.head?_eq_some_iff.mp hhead
      obtain ⟨hfront, hrest⟩ : b ∉ front ∧ b ∉ rest := by
        rw [hitems, List.nodup_middle, List.nodup_cons, List.mem_append, not_or] at hnodup
        exact hnodup.1
      obtain ⟨rfl, -⟩ := (List.append_cons_inj_of_notMem hfront hrest).mp (hitems.symm.trans hsplit)
      rfl

/-- Behind the items read so far the rest is read when reading resumes at every page end from
there on, and only then. -/
theorem collects_unread_iff (hnodup : items.Nodup) (hpos : 0 < limit)
    (hpage : ∀ cursor, page cursor = .ok (pageOf key some items limit cursor))
    (hitems : items = front ++ rest) (hresume : resumeAt key items cursor = front.length)
    (haligned : limit ∣ front.length ∨ rest = []) :
    Collects page cursor rest ↔ ∀ before a after, items = before ++ a :: after →
      front.length ≤ before.length → limit ∣ before.length + 1 ∨ after = [] →
      ResumesBehind key before a after := by
  induction hlength : rest.length using Nat.strong_induction_on generalizing front rest cursor with
  | h length ih =>
      subst hlength
      have hcut : page cursor = .ok (yieldOf key some (rest.take limit)) := by
        rw [hpage cursor, hitems, pageOf_eq (hitems ▸ hresume)]
      by_cases hempty : rest = []
      · subst hempty
        rw [List.take_nil] at hcut
        refine iff_of_true ((collects_of_last hcut).mpr rfl) fun before a after hsplit hle => ?_
        have hsame := congrArg List.length (hitems.symm.trans hsplit)
        simp only [List.length_append, List.length_cons, List.length_nil] at hsame
        omega
      · obtain ⟨init, a, hwindow, hrest, hinit⟩ := window_split hpos hempty
        have hmultiple : limit ∣ front.length := haligned.resolve_right hempty
        have hunread : limit ∣ (front ++ init).length + 1 ∨ rest.drop limit = [] := by
          rw [List.drop_eq_nil_iff]
          by_cases hfull : rest.length ≤ limit
          · exact .inr hfull
          · rw [List.length_append, Nat.add_assoc, hinit, Nat.min_eq_left (by omega)]
            exact .inl (Nat.dvd_add hmultiple (Nat.dvd_refl limit))
        have hsplit : items = (front ++ init) ++ a :: rest.drop limit := by
          rw [hitems, List.append_assoc, ← hrest]
        have hsplit' : items = (front ++ init ++ [a]) ++ rest.drop limit := by
          rw [hsplit, List.append_cons]
        have hgoes : Collects page cursor rest ↔
            Collects page (some (key a)) (rest.drop limit) := by
          rw [hwindow, yieldOf_all] at hcut
          conv_lhs => rw [hrest, List.append_cons]
          exact collects_of_next hcut
        have hshown : (front ++ init ++ [a]).length = (front ++ init).length + 1 :=
          List.length_append
        have hbehind : resumeAt key items (some (key a)) = (front ++ init ++ [a]).length ↔
            ResumesBehind key (front ++ init) a (rest.drop limit) := by
          rw [hsplit, hshown]
          exact resumeAt_eq_iff
        have hless : (rest.drop limit).length < rest.length := by
          rw [List.length_drop]
          omega
        have hstep := fun hresume' => @ih _ hless _ _ (some (key a)) hsplit' hresume'
          (by rwa [hshown]) rfl
        rw [hgoes]
        constructor
        · intro hcollects before b after hsame hle hend
          have hresume' := resumeAt_of_collects hnodup hpos hpage hsplit' hcollects
          by_cases hlater : (front ++ init ++ [a]).length ≤ before.length
          · exact (hstep hresume').mp hcollects before b after hsame hlater hend
          · have hlength := congrArg List.length (hsplit.symm.trans hsame)
            simp only [List.length_append, List.length_cons] at hlength
            rw [hshown, List.length_append] at hlater
            have hposition : (front ++ init).length = before.length := by
              rw [List.length_append]
              rcases hend with hend | rfl
              · exact (eq_of_page_end hmultiple hend hle (by omega) (by omega)).symm
              · simp only [List.length_nil] at hlength
                omega
            obtain ⟨rfl, hrest'⟩ := List.append_inj (hsplit.symm.trans hsame) hposition
            obtain ⟨rfl, rfl⟩ := List.cons.inj hrest'
            exact hbehind.mp hresume'
        · intro hall
          have hresume' := hbehind.mpr (hall _ _ _ hsplit (by simp) hunread)
          refine (hstep hresume').mpr fun before b after hsame hle hend => ?_
          exact hall before b after hsame (by simp at hle; omega) hend

/-- Distinct items are read completely and in order when reading resumes right behind every full
page and behind the last item, and only then. -/
theorem collects_all_iff (hnodup : items.Nodup) (hpos : 0 < limit)
    (hpage : ∀ cursor, page cursor = .ok (pageOf key some items limit cursor)) :
    Collects page none items ↔ Resumable key limit items := by
  rw [collects_unread_iff hnodup hpos hpage (List.nil_append _).symm rfl (.inl (Nat.dvd_zero _))]
  exact forall₄_congr fun before a after hsplit => by simp

end Ranked

end Paging
