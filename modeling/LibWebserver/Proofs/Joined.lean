import LibWebserver.StringHelpers

/-! Joined output prints every element once, with the separator between elements. For
pairs the last element is printed a second time. -/

namespace LibWebserver.StringHelpers

/-- What should be in the stream: the items with text around each, joined. -/
def joined (items : List Bytes) (joinWith prepend append : Bytes) : Bytes :=
  joinWith.intercalate (items.map fun item => prepend ++ item ++ append)

variable {α : Type} (item : α → Bytes) (joinWith prepend append : Bytes)

theorem lookBehind_joined (first : α) (rest : List α) (out : Bytes) (count : Nat) :
    let final := lookBehind (fun curr => prepend ++ item curr ++ append ++ joinWith) first rest out count
    final.2.1 ++ (prepend ++ item final.1 ++ append) = out ++ joined ((first :: rest).map item) joinWith prepend append ∧
      (first :: rest).getLast? = some final.1 := by
  induction rest generalizing first out count with
  | nil => simp [lookBehind, joined]
  | cons next rest ih =>
    obtain ⟨printed, last⟩ := ih next (out ++ (prepend ++ item first ++ append ++ joinWith)) (addSize count 1)
    refine ⟨?_, ?_⟩
    · rw [lookBehind]
      refine printed.trans ?_
      simp only [joined, List.map_cons, List.intercalate_cons_cons, List.append_assoc]
    · rw [lookBehind, List.getLast?_cons_cons]
      exact last

theorem joinedOutput_eq (out : Bytes) (items : List α) :
    (joinedOutput item out items joinWith prepend append).1 = out ++ joined (items.map item) joinWith prepend append := by
  cases items with
  | nil => simp [joinedOutput, joined]
  | cons first rest =>
    have printed := (lookBehind_joined item joinWith prepend append first rest out 0).1
    rw [← printed]
    simp only [joinedOutput, List.append_assoc]

theorem containerToString_eq (str : Bytes) (items : List α) (ifempty : Bytes) :
    (containerToString item str items joinWith ifempty prepend append).1 =
      str ++ if items = [] then ifempty else joined (items.map item) joinWith prepend append := by
  have printed := joinedOutput_eq item joinWith prepend append [] items
  cases items with
  | nil => rfl
  | cons first rest => exact congrArg (str ++ ·) printed

variable {κ ν : Type} (renderKey : κ → Bytes) (renderValue : ν → Bytes) (printwhat : PairContainerPrintValue)
  (separator : Bytes)

/-- What the test of the mode prints of the last pair before the `switch` does. -/
def extra (pair : κ × ν) : Bytes :=
  prepend ++ (if printwhat = .keys then renderKey pair.1 else renderValue pair.2) ++ append

/-- Everything is as it should be, but for one more piece in front of the last element. -/
theorem joinedPairOutput_eq (out : Bytes) (pairs : List (κ × ν)) :
    ∃ before after,
      out ++ joined (pairs.map (pairItem renderKey renderValue printwhat separator)) joinWith prepend append = before ++ after ∧
      (joinedPairOutput renderKey renderValue out pairs printwhat joinWith separator prepend append).1 =
        before ++ ((pairs.getLast?.map (extra prepend append renderKey renderValue printwhat)).getD [] ++ after) := by
  cases pairs with
  | nil => exact ⟨out, [], by simp [joined], by simp [joinedPairOutput]⟩
  | cons first rest =>
    obtain ⟨printed, last⟩ :=
      lookBehind_joined (pairItem renderKey renderValue printwhat separator) joinWith prepend append first rest out 0
    refine ⟨_, _, printed.symm, ?_⟩
    rw [last, Option.map_some, Option.getD_some]
    cases printwhat with
    | keys => simp [joinedPairOutput, extra]
    | values => simp [joinedPairOutput, extra]
    | both => simp [joinedPairOutput, extra]

/-- Plain sequences are joined, and pairs exactly when the second copy of the last pair has no text. -/
theorem joined_output_iff {α κ ν : Type} (render : α → Bytes) (renderKey : κ → Bytes) (renderValue : ν → Bytes) (out : Bytes)
    (items : List α) (pairs : List (κ × ν)) (printwhat : PairContainerPrintValue)
    (joinWith separator prepend append : Bytes) :
    (joinedOutput render out items joinWith prepend append).1 = out ++ joined (items.map render) joinWith prepend append ∧
    ((joinedPairOutput renderKey renderValue out pairs printwhat joinWith separator prepend append).1 =
        out ++ joined (pairs.map (pairItem renderKey renderValue printwhat separator)) joinWith prepend append ↔
      ∀ last ∈ pairs.getLast?, prepend = [] ∧ append = [] ∧
        (if printwhat = .keys then renderKey last.1 else renderValue last.2) = []) := by
  refine ⟨joinedOutput_eq render joinWith prepend append out items, ?_⟩
  obtain ⟨before, after, expected, printed⟩ :=
    joinedPairOutput_eq joinWith prepend append renderKey renderValue printwhat separator out pairs
  rw [printed, expected, List.append_cancel_left_eq, List.append_left_eq_self]
  cases pairs.getLast? with
  | none => simp
  | some last => simp [extra, and_comm]

theorem joinedPairOutput_doubles :
    (joinedPairOutput (fun c => [c]) (fun c => [c]) [] [((97 : UInt8), (98 : UInt8))] .keys [] [] [] []).1 ≠
      [] ++ joined ([((97 : UInt8), (98 : UInt8))].map (pairItem (fun c => [c]) (fun c => [c]) .keys [])) [] [] [] := by
  decide

end LibWebserver.StringHelpers
