import Dockerfile.Proofs.Optimize.Order
import Dockerfile.Proofs.Text.Words

/-!
Ports and their protocols.

The pass that adds protocols looks at the value of an EXPOSE as a whole, and writes at its end. So
it completes the last port, whatever that is, and only if no port has one of the two protocols it
knows (`wordsOf_replaced_addProtocol`). That each port is completed by itself is true of an EXPOSE
exactly if all its ports but the last have a protocol, and the last one lacks it exactly if the two
known ones are not mentioned (`map_withProtocol_iff`).
-/

namespace Dockerfile

open Text Optimize Rule

/-- A port with its protocol, which is TCP where it has none. -/
def withProtocol (port : List Char) : List Char :=
  if '/' ∈ port then port else port ++ "/tcp".toList

theorem withProtocol_eq_self_iff {port : List Char} : withProtocol port = port ↔ '/' ∈ port := by
  unfold withProtocol
  split
  · next slash => simp [slash]
  · next slash => simp [slash]

theorem withProtocol_eq_append_iff {port : List Char} :
    withProtocol port = port ++ "/tcp".toList ↔ '/' ∉ port := by
  unfold withProtocol
  split
  · next slash => simp [slash]
  · next slash => simp [slash]

variable {x : Instruction}

theorem replaced_addProtocol (hk : x.keyword = .expose) :
    (replaced addProtocol? x).value
      = if hasProtocol x.value then x.value else strip x.value ++ "/tcp" := by
  cases known : hasProtocol x.value with
  | true =>
    have nothing : addProtocol? x = none := by simp [addProtocol?, known]
    rw [replaced_of_none nothing, if_pos rfl]
  | false =>
    rw [replaced_of_some (addProtocol?_eq_some.mpr ⟨hk, known, rfl, rfl⟩), write_value,
      if_neg Bool.false_ne_true]

/-- The words of an EXPOSE: the last of them gains the protocol, if the value mentions none. -/
theorem wordsOf_replaced_addProtocol (hk : x.keyword = .expose)
    (ports : ∃ c ∈ x.value.toList, isBlank c = false) :
    ∃ others last, wordsOf x.value.toList = others ++ [last] ∧
      wordsOf (replaced addProtocol? x).value.toList
        = others ++ [if hasProtocol x.value then last else last ++ "/tcp".toList] := by
  have ne : trim x.value.toList ≠ [] := by
    obtain ⟨c, hc, written⟩ := ports
    exact List.ne_nil_of_mem (mem_trim hc written)
  obtain ⟨others, last, words⟩ := exists_wordsOf_concat ne (trimmed_trim x.value.toList).last
  have before : wordsOf x.value.toList = others ++ [last] := by
    rw [← wordsOf_trim]
    simpa using words [] (by simp)
  refine ⟨others, last, before, ?_⟩
  rw [replaced_addProtocol hk]
  split
  · exact before
  · have tcp : Word "/tcp".toList := by decide
    rw [String.toList_append, toList_strip, words _ tcp.not_blank]

theorem map_withProtocol_iff {others : List (List Char)} {last : List Char} {known : Bool} :
    others ++ [if known then last else last ++ "/tcp".toList]
        = (others ++ [last]).map withProtocol ↔
      (∀ port ∈ others, '/' ∈ port) ∧ ('/' ∈ last ↔ known = true) := by
  induction others with
  | nil =>
    cases known with
    | true => simpa [eq_comm] using @withProtocol_eq_self_iff last
    | false => simpa [eq_comm] using @withProtocol_eq_append_iff last
  | cons port others ih =>
    rw [List.cons_append, List.cons_append, List.map_cons, List.cons_eq_cons, ih, eq_comm,
      withProtocol_eq_self_iff, List.forall_mem_cons, and_assoc]

/-- An EXPOSE with ports: at most the last of them gains a protocol. Each port has gained it that
lacked one, and no other, exactly if all ports but the last have a protocol and the last one has
one exactly if the value mentions TCP or UDP. -/
theorem words_addProtocol (xs : List Instruction) :
    List.Forall₂ (fun x y => y.keyword = x.keyword ∧ (x.keyword ≠ .expose → y = x) ∧
        (x.keyword = .expose → (∃ c ∈ x.value.toList, isBlank c = false) →
          ∃ others last, wordsOf x.value.toList = others ++ [last] ∧
            wordsOf y.value.toList
              = others ++ [if hasProtocol x.value then last else last ++ "/tcp".toList] ∧
            (wordsOf y.value.toList = (wordsOf x.value.toList).map withProtocol ↔
              (∀ port ∈ others, '/' ∈ port) ∧ ('/' ∈ last ↔ hasProtocol x.value = true))))
      xs (Pass.addProtocol.apply xs).instructions := by
  change List.Forall₂ _ xs (xs.map (replaced addProtocol?))
  rw [List.forall₂_map_right_iff, List.forall₂_same]
  intro x _
  obtain ⟨keyword, same⟩ := replaced_of_subject (fun found =>
    ⟨(addProtocol?_eq_some.mp found).1, (addProtocol?_eq_some.mp found).2.2.1 ▸ rfl⟩) x
  refine ⟨keyword, same, fun hk ports => ?_⟩
  obtain ⟨others, last, before, after⟩ := wordsOf_replaced_addProtocol hk ports
  refine ⟨others, last, before, after, ?_⟩
  rw [before, after, map_withProtocol_iff]

/-- Of two ports only the last gains a protocol, and one in capital letters is given another. -/
theorem words_addProtocol_twice :
    let xs := [Instruction.write 1 .expose "80 443", .write 2 .expose "8080/TCP"]
    (Pass.addProtocol.apply xs).instructions.map Instruction.value
        = ["80 443/tcp", "8080/TCP/tcp"] ∧
      List.Forall₂ (fun x y =>
          wordsOf y.value.toList ≠ (wordsOf x.value.toList).map withProtocol)
        xs (Pass.addProtocol.apply xs).instructions := by
  intro xs
  have after : (Pass.addProtocol.apply xs).instructions
      = [.write 1 .expose "80 443/tcp", .write 2 .expose "8080/TCP/tcp"] := by decide +kernel
  have two : wordsOf "80 443/tcp".toList ≠ (wordsOf "80 443".toList).map withProtocol := by
    decide +kernel
  have capital :
      wordsOf "8080/TCP/tcp".toList ≠ (wordsOf "8080/TCP".toList).map withProtocol := by
    decide +kernel
  rw [after]
  exact ⟨rfl, .cons two (.cons capital .nil)⟩

end Dockerfile
