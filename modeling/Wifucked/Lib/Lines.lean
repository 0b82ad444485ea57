import Mathlib.Data.List.TakeWhile

/-!
# Lines of a text

A text ends a line at each break; a carriage return with a line feed after it is
one break, and what comes after the last break is a line only where there is
something. Which characters break a line is a parameter.
-/

namespace Lines

def uncarriaged : List Char → List Char
  | '\r' :: '\n' :: rest => '\n' :: uncarriaged rest
  | c :: rest => c :: uncarriaged rest
  | [] => []

def splitlines (isBreak : Char → Bool) (text : List Char) : List (List Char) :=
  let lines := (uncarriaged text).splitOnP isBreak
  if lines.getLast? = some [] then lines.dropLast else lines

def unlines (lines : List (List Char)) : List Char := lines.flatMap (· ++ ['\n'])

theorem uncarriaged_of_not_mem (h : '\r' ∉ text) : uncarriaged text = text := by
  fun_induction uncarriaged text with
  | case1 rest ih => simp at h
  | case2 c rest _ ih => rw [ih fun hr => h (List.mem_cons_of_mem _ hr)]
  | case3 => rfl

variable {isBreak : Char → Bool}

theorem splitOnP_unlines (hfeed : isBreak '\n' = true)
    (h : ∀ line ∈ lines, ∀ c ∈ line, isBreak c = false) :
    (unlines lines).splitOnP isBreak = lines ++ [[]] := by
  induction lines with
  | nil => simp [unlines, List.splitOnP_nil]
  | cons line lines ih =>
    obtain ⟨hline, hlines⟩ := List.forall_mem_cons.mp h
    rw [unlines, List.flatMap_cons, List.append_assoc, List.singleton_append,
      List.splitOnP_append_cons_of_forall_mem hline '\n' hfeed, ← unlines, ih hlines]
    rfl

theorem splitlines_unlines (hfeed : isBreak '\n' = true) (hreturn : isBreak '\r' = true)
    (h : ∀ line ∈ lines, ∀ c ∈ line, isBreak c = false) :
    splitlines isBreak (unlines lines) = lines := by
  have hcarriage : '\r' ∉ unlines lines := by
    intro hmem
    obtain ⟨line, hline, hc⟩ := List.mem_flatMap.mp hmem
    rcases List.mem_append.mp hc with hc | hc
    · rw [h line hline _ hc] at hreturn
      cases hreturn
    · exact absurd hc (by decide)
  rw [splitlines, uncarriaged_of_not_mem hcarriage, splitOnP_unlines hfeed h]
  simp

theorem head?_splitOnP (p : Char → Bool) (text : List Char) :
    (text.splitOnP p).head? = some (text.takeWhile fun c => !p c) := by
  induction text with
  | nil => rfl
  | cons c text ih =>
    rw [List.splitOnP_cons_eq_if_modifyHead]
    split
    · rename_i hc
      simp [hc]
    · rename_i hc
      rw [List.head?_modifyHead, ih]
      simp [hc]

end Lines
