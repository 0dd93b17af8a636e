import LibWebserver.CFormat
import Mathlib.Algebra.BigOperators.Group.List.Basic

/-! The check of a format against what `printf` documents. A conversion that the check does not know leaves it
inside that directive, up to the next specifier or percent; and the result is the whole output. -/

namespace LibWebserver.CFormat
open CStr

/-- A field width or a precision. -/
inductive Amount where
  | star
  | digits (text : Bytes) (decimal : ∀ c ∈ text, isdigit c)

def flagChars : Bytes := ascii "-+ #0" ++ [39]

def modifiers : List Bytes := ["", "hh", "h", "l", "ll", "L", "q", "j", "z", "t"].map ascii

/-- The conversions of `printf`. The check has no case for `F`, `a`, `A`, `C` and `S`. -/
def conversions : Bytes := ascii "diouxXDOUeEfFgGaACcSspn"

structure Directive where
  flags : Bytes
  width : Option Amount
  /-- A point may stand without an amount. -/
  precision : Option (Option Amount)
  modifier : Bytes
  conversion : UInt8
  flagsValid : flags ⊆ flagChars
  modifierValid : modifier ∈ modifiers
  conversionValid : conversion ∈ conversions

inductive Piece where
  | text (bytes : Bytes) (plain : 37 ∉ bytes ∧ 0 ∉ bytes)
  | percent
  | directive (body : Directive)

namespace Amount

def render : Amount → Bytes
  | star => [42]
  | digits text _ => text

def parameters : Amount → Nat
  | star => 1
  | digits _ _ => 0

end Amount

namespace Directive

/-- What stands between the percent and the conversion. -/
def middle (self : Directive) : Bytes :=
  self.flags ++ ((self.width.map Amount.render).getD [] ++
    ((self.precision.map fun amount => 46 :: (amount.map Amount.render).getD []).getD [] ++ self.modifier))

def render (self : Directive) : Bytes := 37 :: (self.middle ++ [self.conversion])

def parameters (self : Directive) : Nat :=
  (self.width.map Amount.parameters).getD 0 + (self.precision.join.map Amount.parameters).getD 0 + 1

end Directive

namespace Piece

def render : Piece → Bytes
  | text bytes _ => bytes
  | percent => [37, 37]
  | directive body => body.render

def parameters : Piece → Nat
  | directive body => body.parameters
  | _ => 0

/-- The piece stores the number of characters written so far. -/
def writes : Piece → Bool
  | directive body => body.conversion = 110
  | _ => false

end Piece

def render (pieces : List Piece) : Bytes := pieces.flatMap Piece.render

/-- What the check still reads as part of a directive when it meets a text inside one. -/
def stray (bytes : Bytes) : Bytes := bytes.takeWhile (· ∉ specifiers)

namespace Piece

/-- The check is inside a directive behind the piece, when it is or is not before it. -/
def leaves (inside : Bool) : Piece → Bool
  | text bytes _ => inside && !bytes.any (· ∈ specifiers)
  | percent => inside
  | directive body => !inside && decide (body.conversion ∉ specifiers)

/-- The check meets an `n` inside a directive. -/
def stops (inside : Bool) : Piece → Bool
  | text bytes _ => inside && decide (110 ∈ stray bytes)
  | percent => false
  | directive body => !inside && decide (body.conversion = 110)

/-- The characters of a text that the check takes for widths or precisions. -/
def stars (inside : Bool) : Piece → Nat
  | text bytes _ => if inside then (stray bytes).count 42 else 0
  | _ => 0

/-- What the check misses of a directive that it takes for an escaped percent and a text. -/
def missed (inside : Bool) : Piece → Nat
  | directive body => if inside then body.parameters + 1 else 0
  | _ => 0

end Piece

/-- The pieces, each with whether the check is inside a directive before it. -/
def readings (inside : Bool) : List Piece → List (Bool × Piece)
  | [] => []
  | piece :: pieces => (inside, piece) :: readings (piece.leaves inside) pieces

def Stops (inside : Bool) (pieces : List Piece) : Prop := ∃ reading ∈ readings inside pieces, reading.2.stops reading.1

def stars (inside : Bool) (pieces : List Piece) : Nat :=
  ((readings inside pieces).map fun reading => reading.2.stars reading.1).sum

def missed (inside : Bool) (pieces : List Piece) : Nat :=
  ((readings inside pieces).map fun reading => reading.2.missed reading.1).sum

def parameters (pieces : List Piece) : Nat := (pieces.map Piece.parameters).sum

def Writes (pieces : List Piece) : Prop := ∃ piece ∈ pieces, piece.writes

instance : DecidablePred Writes := fun pieces => inferInstanceAs (Decidable (∃ piece ∈ pieces, _))

instance (inside : Bool) : DecidablePred (Stops inside) :=
  fun pieces => inferInstanceAs (Decidable (∃ reading ∈ readings inside pieces, _))

/-- The check sees a `%n` where there is one, and otherwise the stars it reads in texts make up for the
directives it misses. -/
structure Told (pieces : List Piece) : Prop where
  stops : Stops false pieces ↔ Writes pieces
  balanced : ¬ Writes pieces → stars false pieces = missed false pieces

/-- The characters that mean something behind a percent. -/
def busy : Bytes := specifiers ++ [37, 110, 42]

variable {count : Int}

theorem step_idle {c : UInt8} (idle : c ∉ busy) : validateStep ⟨1, count⟩ c = some ⟨1, count⟩ := by
  simp only [busy, List.mem_append, List.mem_cons, List.not_mem_nil, or_false, not_or] at idle
  simp [validateStep, idle]

theorem step_specifier {c : UInt8} (specifier : c ∈ specifiers) : validateStep ⟨1, count⟩ c = some ⟨0, count⟩ := by
  simp [validateStep, specifier]

theorem foldlM_idle {text : Bytes} (idle : ∀ c ∈ text, c ∉ busy) :
    text.foldlM validateStep ⟨1, count⟩ = some ⟨1, count⟩ := by
  induction text with
  | nil => rfl
  | cons c text ih =>
    rw [List.forall_mem_cons] at idle
    rw [List.foldlM_cons, step_idle idle.1]
    exact ih idle.2

theorem foldlM_text {text : Bytes} (plain : 37 ∉ text) : text.foldlM validateStep ⟨0, count⟩ = some ⟨0, count⟩ := by
  induction text with
  | nil => rfl
  | cons c text ih =>
    simp only [List.mem_cons, not_or] at plain
    have one : validateStep ⟨0, count⟩ c = some ⟨0, count⟩ := by simp [validateStep, Ne.symm plain.1]
    rw [List.foldlM_cons, one]
    exact ih plain.2

/-- A text that the check takes for a part of the directive before it. -/
theorem foldlM_stray {text : Bytes} (plain : 37 ∉ text) :
    text.foldlM validateStep ⟨1, count⟩ =
      if 110 ∈ stray text then none
      else some ⟨(!text.any (· ∈ specifiers)).toNat, count + (stray text).count 42⟩ := by
  induction text generalizing count with
  | nil => simp [stray, pure]
  | cons c text ih =>
    simp only [List.mem_cons, not_or] at plain
    rw [List.foldlM_cons]
    by_cases specifier : c ∈ specifiers
    · have nothing : stray (c :: text) = [] := by simp [stray, specifier]
      rw [step_specifier specifier, Option.bind_eq_bind, Option.bind_some, foldlM_text plain.2, nothing]
      simp [specifier]
    · have more : stray (c :: text) = c :: stray text := by simp [stray, specifier]
      rw [more]
      by_cases store : c = 110
      · subst store
        rw [if_pos List.mem_cons_self]
        rfl
      by_cases star : c = 42
      · subst star
        rw [show validateStep ⟨1, count⟩ 42 = some ⟨1, count + 1⟩ from rfl, Option.bind_eq_bind, Option.bind_some, ih plain.2]
        simp [specifier, add_assoc, add_comm]
      · have idle : c ∉ busy := by simp [busy, specifier, store, star, Ne.symm plain.1]
        rw [step_idle idle, Option.bind_eq_bind, Option.bind_some, ih plain.2]
        simp [specifier, List.count_cons_of_ne star, Ne.symm store]

theorem digit_idle {c : UInt8} (digit : isdigit c) : c ∉ busy := by
  have none : ∀ c ∈ busy, ¬ isdigit c := by decide +kernel
  exact fun member => none c member digit

theorem foldlM_amount (amount : Amount) :
    amount.render.foldlM validateStep ⟨1, count⟩ = some ⟨1, count + amount.parameters⟩ := by
  cases amount with
  | star => rfl
  | digits text decimal => exact (foldlM_idle fun c member => digit_idle (decimal c member)).trans (by simp [Amount.parameters])

theorem foldlM_width (width : Option Amount) :
    ((width.map Amount.render).getD []).foldlM validateStep ⟨1, count⟩ =
      some ⟨1, count + (width.map Amount.parameters).getD 0⟩ := by
  cases width with
  | none => simp [pure]
  | some amount => exact foldlM_amount amount

theorem foldlM_precision (precision : Option (Option Amount)) :
    ((precision.map fun amount => 46 :: (amount.map Amount.render).getD []).getD []).foldlM validateStep ⟨1, count⟩ =
      some ⟨1, count + (precision.join.map Amount.parameters).getD 0⟩ := by
  cases precision with
  | none => simp [pure]
  | some amount =>
    have point : validateStep ⟨1, count⟩ 46 = some ⟨1, count⟩ := step_idle (by decide)
    rw [Option.map_some, Option.getD_some, List.foldlM_cons, point]
    exact foldlM_width amount

theorem foldlM_middle (self : Directive) :
    self.middle.foldlM validateStep ⟨1, count⟩ = some ⟨1, count + (self.parameters - 1 : Nat)⟩ := by
  have flags : ∀ c ∈ self.flags, c ∉ busy := by
    have none : ∀ c ∈ flagChars, c ∉ busy := by decide +kernel
    exact fun c member => none c (self.flagsValid member)
  have modifier : ∀ c ∈ self.modifier, c ∉ busy := by
    have none : ∀ modifier ∈ modifiers, ∀ c ∈ modifier, c ∉ busy := by decide +kernel
    exact none self.modifier self.modifierValid
  rw [Directive.middle, List.foldlM_append, foldlM_idle flags, Option.bind_eq_bind, Option.bind_some, List.foldlM_append,
    foldlM_width, Option.bind_eq_bind, Option.bind_some, List.foldlM_append, foldlM_precision, Option.bind_eq_bind,
    Option.bind_some, foldlM_idle modifier, Directive.parameters, Nat.add_sub_cancel, Nat.cast_add, ← add_assoc]

theorem not_mem_amount {c : UInt8} (foreign : c ∈ [0, 37]) (amount : Option Amount) :
    c ∉ (amount.map Amount.render).getD [] := by
  have other : ∀ c ∈ ([0, 37] : Bytes), c ≠ 42 ∧ ¬ isdigit c := by decide +kernel
  cases amount with
  | none => exact List.not_mem_nil
  | some amount =>
    cases amount with
    | star => exact fun member => (other c foreign).1 (List.mem_singleton.mp member)
    | digits text decimal => exact fun member => (other c foreign).2 (decimal c member)

/-- There is no NUL and no second percent in a directive. -/
theorem not_mem_directive {c : UInt8} (foreign : c ∈ [0, 37]) (self : Directive) : c ∉ self.middle ++ [self.conversion] := by
  have other : ∀ c ∈ ([0, 37] : Bytes), c ∉ flagChars ∧ (∀ modifier ∈ modifiers, c ∉ modifier) ∧ c ∉ conversions ∧ c ≠ 46 := by
    decide +kernel
  obtain ⟨flagged, modified, converted, point⟩ := other c foreign
  have flags : c ∉ self.flags := fun member => flagged (self.flagsValid member)
  have modifier : c ∉ self.modifier := modified self.modifier self.modifierValid
  have conversion : c ≠ self.conversion := fun same => converted (same ▸ self.conversionValid)
  have precision : c ∉ (self.precision.map fun amount => 46 :: (amount.map Amount.render).getD []).getD [] := by
    cases self.precision with
    | none => exact List.not_mem_nil
    | some amount => simpa [point] using not_mem_amount foreign amount
  simp [Directive.middle, flags, modifier, precision, not_mem_amount foreign, conversion]

/-- The last character of a directive that the check reads. -/
theorem step_conversion {c : UInt8} (valid : c ∈ conversions) :
    validateStep ⟨1, count⟩ c = if c = 110 then none else some ⟨(decide (c ∉ specifiers)).toNat, count⟩ := by
  by_cases specifier : c ∈ specifiers
  · have other : c ≠ 110 := fun same => absurd (same ▸ specifier) (by decide)
    rw [step_specifier specifier, if_neg other]
    simp [specifier]
  by_cases store : c = 110
  · subst store
    rfl
  · have idle : c ∉ busy := by
      have rest : ∀ c ∈ conversions, c ∉ specifiers → c ≠ 110 → c ∉ busy := by decide +kernel
      exact rest c valid specifier store
    rw [step_idle idle, if_neg store]
    simp [specifier]

theorem foldlM_directive (self : Directive) :
    self.render.foldlM validateStep ⟨0, count⟩ =
      if self.conversion = 110 then none
      else some ⟨(decide (self.conversion ∉ specifiers)).toNat, count + self.parameters⟩ := by
  have percent : validateStep ⟨0, count⟩ 37 = some ⟨1, count + 1⟩ := rfl
  have positive : ((self.parameters - 1 : Nat) : Int) = self.parameters - 1 := by
    rw [Directive.parameters]
    push_cast
    omega
  rw [Directive.render, List.foldlM_cons, percent, Option.bind_eq_bind, Option.bind_some, List.foldlM_append, foldlM_middle,
    Option.bind_eq_bind, Option.bind_some, List.foldlM_cons, step_conversion self.conversionValid, positive]
  by_cases writes : self.conversion = 110
  · rw [if_pos writes, if_pos writes]
    rfl
  · rw [if_neg writes, if_neg writes]
    simp only [Option.bind_eq_bind, Option.bind_some, List.foldlM_nil, pure]
    congr 2
    omega

theorem foldlM_missed (self : Directive) : self.render.foldlM validateStep ⟨1, count⟩ = some ⟨0, count - 1⟩ := by
  have percent : validateStep ⟨1, count⟩ 37 = some ⟨0, count - 1⟩ := rfl
  rw [Directive.render, List.foldlM_cons, percent, Option.bind_eq_bind, Option.bind_some]
  exact foldlM_text (not_mem_directive (by decide) self)

theorem foldlM_piece (inside : Bool) (piece : Piece) :
    piece.render.foldlM validateStep ⟨inside.toNat, count⟩ =
      if piece.stops inside then none
      else some ⟨(piece.leaves inside).toNat, count + piece.parameters + piece.stars inside - piece.missed inside⟩ := by
  cases piece with
  | text bytes plain =>
    cases inside with
    | false => exact (foldlM_text plain.1).trans (by simp [Piece.stops, Piece.leaves, Piece.parameters, Piece.stars, Piece.missed])
    | true =>
      refine (foldlM_stray plain.1).trans ?_
      simp [Piece.stops, Piece.leaves, Piece.parameters, Piece.stars, Piece.missed]
  | percent =>
    cases inside <;>
      simp [Piece.render, Piece.stops, Piece.leaves, Piece.parameters, Piece.stars, Piece.missed, validateStep, specifiers, ascii]
  | directive body =>
    cases inside with
    | false =>
      refine (foldlM_directive body).trans ?_
      simp [Piece.stops, Piece.leaves, Piece.parameters, Piece.stars, Piece.missed]
    | true =>
      refine (foldlM_missed body).trans ?_
      simp only [Piece.stops, Piece.leaves, Piece.parameters, Piece.stars, Piece.missed]
      simp
      omega

variable {inside : Bool} {pieces : List Piece}

theorem stops_cons (piece : Piece) :
    Stops inside (piece :: pieces) ↔ piece.stops inside ∨ Stops (piece.leaves inside) pieces := by
  simp [Stops, readings]

theorem stars_cons (piece : Piece) :
    stars inside (piece :: pieces) = piece.stars inside + stars (piece.leaves inside) pieces := rfl

theorem missed_cons (piece : Piece) :
    missed inside (piece :: pieces) = piece.missed inside + missed (piece.leaves inside) pieces := rfl

/-- The number of parameters that the check counts. -/
def counted (inside : Bool) (pieces : List Piece) : Int := parameters pieces + stars inside pieces - missed inside pieces

theorem counted_cons (piece : Piece) : counted inside (piece :: pieces) =
    piece.parameters + piece.stars inside - piece.missed inside + counted (piece.leaves inside) pieces := by
  simp only [counted, parameters, List.map_cons, List.sum_cons, stars_cons, missed_cons, Nat.cast_add]
  omega

theorem foldlM_pieces (inside : Bool) (pieces : List Piece) : ∃ last : Bool,
    (render pieces).foldlM validateStep ⟨inside.toNat, count⟩ =
      if Stops inside pieces then none else some ⟨last.toNat, count + counted inside pieces⟩ := by
  induction pieces generalizing inside count with
  | nil => exact ⟨inside, by simp [render, Stops, readings, counted, parameters, stars, missed, pure]⟩
  | cons piece pieces ih =>
    obtain ⟨last, rest⟩ := @ih (count + piece.parameters + piece.stars inside - piece.missed inside) (piece.leaves inside)
    refine ⟨last, ?_⟩
    rw [render, List.flatMap_cons, List.foldlM_append, foldlM_piece, ← render]
    by_cases stops : piece.stops inside
    · rw [if_pos stops, if_pos ((stops_cons piece).mpr (.inl stops))]
      rfl
    · have sum : count + piece.parameters + piece.stars inside - piece.missed inside + counted (piece.leaves inside) pieces =
          count + counted inside (piece :: pieces) := by
        rw [counted_cons]
        omega
      rw [if_neg stops, Option.bind_eq_bind, Option.bind_some, rest, sum]
      exact if_congr ((stops_cons piece).trans (or_iff_right stops)).symm rfl rfl

/-- A directive that is missed stands behind one that was read. -/
theorem counted_nonneg (inside : Bool) (pieces : List Piece) : -(inside.toNat : Int) ≤ counted inside pieces := by
  induction pieces generalizing inside with
  | nil => simp [counted, parameters, stars, missed, readings]
  | cons piece pieces ih =>
    have rest := ih (piece.leaves inside)
    rw [counted_cons]
    cases piece with
    | text bytes plain =>
      have less : (Piece.leaves inside (.text bytes plain)).toNat ≤ inside.toNat := by
        cases inside <;> simp [Piece.leaves, Bool.toNat_le]
      simp only [Piece.parameters, Piece.missed]
      omega
    | percent =>
      simp only [Piece.leaves] at rest
      simp only [Piece.parameters, Piece.missed, Piece.leaves, Piece.stars]
      omega
    | directive body =>
      have positive : 1 ≤ body.parameters := Nat.le_add_left _ _
      have one := Bool.toNat_le (Piece.leaves inside (.directive body))
      cases inside with
      | false =>
        simp only [Piece.parameters, Piece.missed, Piece.stars, Bool.toNat_false, Bool.false_eq_true, if_false]
        omega
      | true =>
        simp only [Piece.leaves, Bool.not_true, Bool.false_and, Bool.toNat_false] at rest
        simp only [Piece.parameters, Piece.missed, Piece.stars, Piece.leaves, Bool.not_true, Bool.false_and, Bool.toNat_true,
          if_true]
        omega

theorem nul_not_mem (piece : Piece) : 0 ∉ piece.render := by
  cases piece with
  | text bytes plain => exact plain.2
  | percent => decide
  | directive body =>
    rw [Piece.render, Directive.render, List.mem_cons, not_or]
    exact ⟨by decide, not_mem_directive (by decide) body⟩

theorem cstr_render (pieces : List Piece) : cstr (render pieces) = render pieces := by
  refine cstr_of_not_mem fun member => ?_
  obtain ⟨piece, _, inside⟩ := List.mem_flatMap.mp member
  exact nul_not_mem piece inside

theorem cFormatValidate_render (pieces : List Piece) (args : Nat) :
    cFormatValidate (render pieces) args =
      if ¬ Stops false pieces ∧ counted false pieces = args then some () else none := by
  obtain ⟨last, scanned⟩ := @foldlM_pieces 0 false pieces
  rw [cFormatValidate, cstr_render, show ({} : Scan) = ⟨false.toNat, 0⟩ from rfl, scanned]
  by_cases stops : Stops false pieces
  · rw [if_pos stops, if_neg fun valid => valid.1 stops]
    rfl
  · rw [if_neg stops, Option.bind_eq_bind, Option.bind_some, zero_add]
    by_cases same : counted false pieces = args
    · rw [if_pos same.symm, if_pos ⟨stops, same⟩]
    · rw [if_neg fun equal => same equal.symm, if_neg fun valid => same valid.2]

/-- `vsnprintf` returns the length of the whole output and writes as much of it as fits, with
a NUL behind it. -/
structure Formats (vsnprintf : Vsnprintf) (out : Bytes) : Prop where
  returns : ∀ b size, (vsnprintf b size).2 = out.length
  writes : ∀ b size, 0 < size → size ≤ b.length →
    (vsnprintf b size).1 = out.take (size - 1) ++ 0 :: b.drop (min (size - 1) out.length + 1)

variable {vsnprintf : Vsnprintf} {out : Bytes}

theorem toSize_of_lt {n : Nat} (small : n < 2 ^ 64) : toSize n = n := by
  rw [toSize]
  omega

theorem length_resize (b : Bytes) (size : Nat) : (resize b size).length = size := by
  simp only [resize, List.length_append, List.length_take, List.length_replicate]
  omega

theorem formatStep_fits (formats : Formats vsnprintf out) {b : Bytes} {size : Nat} (small : out.length + 1 < 2 ^ 31)
    (room : size ≤ b.length) (fits : out.length < size) : formatStep vsnprintf (b, size) = .exit (cstr out) := by
  have whole : out.take (size - 1) = out := List.take_of_length_le (by omega)
  simp only [formatStep]
  rw [formats.returns, toSize_of_lt (by omega), if_pos fits, formats.writes b size (by omega) room, whole, cstr_nul]

theorem formatStep_grows (formats : Formats vsnprintf out) {b : Bytes} {size : Nat} (small : out.length + 1 < 2 ^ 31)
    (exceeds : size ≤ out.length) : ∃ more, more.length = out.length + 1 ∧
      formatStep vsnprintf (b, size) = .next (more, out.length + 1) := by
  have next : toSize ((out.length : Int) + 1) = out.length + 1 := @toSize_of_lt (out.length + 1) (by omega)
  refine ⟨resize (vsnprintf b size).1 (out.length + 1), length_resize _ _, ?_⟩
  simp only [formatStep]
  rw [formats.returns, toSize_of_lt (show out.length < 2 ^ 64 by omega), if_neg (Nat.not_lt.mpr exceeds), next]

theorem doCFormat_returns (formats : Formats vsnprintf out) (small : out.length + 1 < 2 ^ 31) (fuel : Nat) :
    doCFormat vsnprintf (fuel + 2) = some (cstr out) := by
  have room : FORMAT_BUFSIZE ≤ (List.replicate FORMAT_BUFSIZE (0 : UInt8)).length := List.length_replicate.ge
  by_cases fits : out.length < FORMAT_BUFSIZE
  · exact Loop.run_exit _ (formatStep_fits formats small room fits)
  · obtain ⟨more, length, grows⟩ := formatStep_grows formats small (Nat.not_lt.mp fits)
    refine (Loop.run_next _ grows).trans (Loop.run_exit _ ?_)
    exact formatStep_fits formats small length.ge (Nat.lt_succ_self _)

theorem cFormat_eq (formats : Formats vsnprintf out) (small : out.length + 1 < 2 ^ 31) (pieces : List Piece)
    (args fuel : Nat) :
    cFormat vsnprintf (render pieces) args (fuel + 2) =
      if ¬ Stops false pieces ∧ counted false pieces = args then some (cstr out) else none := by
  rw [cFormat, cFormatValidate_render]
  split
  · exact doCFormat_returns formats small fuel
  · rfl

theorem Told.of_known (known : ∀ body, .directive body ∈ pieces → body.conversion ∈ specifiers ∨ body.conversion = 110) :
    Told pieces := by
  induction pieces with
  | nil => exact ⟨by simp [Stops, readings, Writes], fun _ => rfl⟩
  | cons piece pieces ih =>
    have told := ih fun body member => known body (List.mem_cons_of_mem piece member)
    have stops : piece.stops false = piece.writes := by cases piece <;> rfl
    by_cases writes : piece.writes
    · exact ⟨iff_of_true ((stops_cons piece).mpr (.inl (stops.trans writes))) ⟨piece, List.mem_cons_self, writes⟩,
        fun quiet => absurd ⟨piece, List.mem_cons_self, writes⟩ quiet⟩
    · have leaves : piece.leaves false = false := by
        cases piece with
        | text bytes plain => rfl
        | percent => rfl
        | directive body =>
          have specifier := (known body List.mem_cons_self).resolve_right (by simpa [Piece.writes] using writes)
          simp [Piece.leaves, specifier]
      have quiet : Writes (piece :: pieces) ↔ Writes pieces := by simp [Writes, writes]
      refine ⟨?_, fun silent => ?_⟩
      · rw [stops_cons, leaves, stops, quiet, or_iff_right writes, told.stops]
      · have balanced := told.balanced (mt quiet.mpr silent)
        have none : piece.stars false = 0 ∧ piece.missed false = 0 := by cases piece <;> exact ⟨rfl, rfl⟩
        rw [stars_cons, missed_cons, leaves, none.1, none.2, balanced]

/-- The process is aborted exactly for a `%n` or another number of parameters, and the whole output up to its first NUL
returned otherwise, if and only if the check is told what the format asks for, as it is when it knows the conversions. -/
theorem cFormat_render_iff (formats : Formats vsnprintf out) (small : out.length + 1 < 2 ^ 31) (pieces : List Piece) :
    ((∀ args fuel, cFormat vsnprintf (render pieces) args (fuel + 2) =
      if ¬ Writes pieces ∧ parameters pieces = args then some (cstr out) else none) ↔ Told pieces) ∧
    ((∀ body, .directive body ∈ pieces → body.conversion ∈ specifiers ∨ body.conversion = 110) → Told pieces) := by
  refine ⟨⟨?_, ?_⟩, Told.of_known⟩
  · intro right
    have same : ∀ args : Nat,
        (¬ Stops false pieces ∧ counted false pieces = args) ↔ ¬ Writes pieces ∧ parameters pieces = args := by
      intro args
      have equal := congrArg (·.isSome = true) (right args 0)
      rw [cFormat_eq formats small] at equal
      simpa only [Option.isSome_ite, eq_iff_iff] using equal
    have nonneg : 0 ≤ counted false pieces := counted_nonneg false pieces
    have counts := same (counted false pieces).toNat
    rw [Int.toNat_of_nonneg nonneg] at counts
    have asks := same (parameters pieces)
    refine ⟨not_iff_not.mp ⟨fun runs => (counts.mp ⟨runs, rfl⟩).1, fun quiet => (asks.mpr ⟨quiet, rfl⟩).1⟩, fun quiet => ?_⟩
    have equal := (asks.mpr ⟨quiet, rfl⟩).2
    rw [counted] at equal
    omega
  · intro told args fuel
    rw [cFormat_eq formats small]
    refine if_congr ((and_congr_left' (not_congr told.stops)).trans (and_congr_right fun quiet => ?_)) rfl rfl
    have equal := told.balanced quiet
    rw [counted]
    omega

def directive (precision : Option (Option Amount)) (conversion : UInt8) (valid : conversion ∈ conversions) : Piece :=
  .directive
    { flags := [], width := none, precision := precision, modifier := [], conversion := conversion
      flagsValid := List.nil_subset _, modifierValid := by decide, conversionValid := valid }

/-- The check finds the end of `%.1F` at the `s` behind it. -/
def seconds : List Piece :=
  [directive (some (some (.digits [49] (by decide +kernel)))) 70 (by decide), .text (ascii " s, ") (by decide),
    directive none 117 (by decide), .text (ascii " of ") (by decide), .directive
    { flags := [], width := some .star, precision := none, modifier := ascii "ll", conversion := 120
      flagsValid := List.nil_subset _, modifierValid := by decide, conversionValid := by decide }]

/-- `vsnprintf` when its output does not depend on the parameters. -/
def constant (out : Bytes) : Vsnprintf := fun b size =>
  (if size = 0 then b else out.take (size - 1) ++ 0 :: b.drop (min (size - 1) out.length + 1), out.length)

/-- But it takes the second percent of `%F %d` for an escaped one. -/
theorem cFormat_render_iff_seconds :
    cFormat (constant (ascii "1.5 s, 2 of   ff")) (ascii "%.1F s, %u of %*llx") 4 2 = some (ascii "1.5 s, 2 of   ff") ∧
      cFormat (constant (ascii "1.5 2")) (ascii "%F %d") 2 2 = none := by
  have formats : Formats (constant (ascii "1.5 s, 2 of   ff")) (ascii "1.5 s, 2 of   ff") :=
    ⟨fun _ _ => rfl, fun _ _ positive _ => if_neg positive.ne'⟩
  have told : Told seconds := ⟨by decide +kernel, fun _ => by decide +kernel⟩
  have format : ascii "%.1F s, %u of %*llx" = render seconds := by decide +kernel
  have asks : ¬ Writes seconds ∧ parameters seconds = 4 := by decide +kernel
  have whole : cstr (ascii "1.5 s, 2 of   ff") = ascii "1.5 s, 2 of   ff" := by decide +kernel
  refine ⟨?_, by decide +kernel⟩
  rw [format, (cFormat_render_iff formats (by decide) seconds).1.mpr told 4 0, if_pos asks, whole]

end LibWebserver.CFormat
