import LibWebserver.Lifetime
import Mathlib.Algebra.Order.Group.Nat
import Mathlib.Data.List.Count
import Mathlib.Tactic.SplitIfs

/-! The count of the servers and the `Status` they share. Nothing keeps the steps from the
count to the pointer together, so two plain constructors can leave a server without a
`Status`: the runs are safe only as long as no server is counted or uncounted meanwhile. The
thread of a `Status` is not waited for, and a constructor that throws is counted for ever. -/

namespace LibWebserver

namespace Passage

/-- Between the count that decided it and the end of `Init` or `Destroy`. -/
def inside : Passage → Bool
  | allocate | assign _ | stop | delete | clear => true
  | count | openPoll | uncount => false

/-- Counted in `servers_count_`. -/
def counted : Passage → Bool
  | allocate | assign _ | openPoll | uncount => true
  | count | stop | delete | clear => false

end Passage

namespace Lifetime

variable {lifetime after : Lifetime} {act : Act}

/-- Fewer than 2 ^ 32 servers are ever counted at once. -/
def Bounded (lifetime : Lifetime) : Act → Prop
  | .advance .count _ => lifetime.count + 1 < 2 ^ 32
  | _ => True

/-- As under a lock from the count to the end of `Init` or `Destroy`, which the code does not
have. The system creates the thread of `Status`. -/
def Guarded (lifetime : Lifetime) : Act → Prop
  | .advance .count _ => lifetime.count + 1 < 2 ^ 32 ∧ ∀ passage ∈ lifetime.passages, ¬ passage.inside
  | .advance .uncount _ => ∀ passage ∈ lifetime.passages, ¬ passage.inside
  | .advance .allocate refused => ¬ refused
  | _ => True

/-- The thread of a `Status` is at its end when the object is deleted. -/
def Awaited (lifetime : Lifetime) : Act → Prop
  | .advance .delete _ => ∀ object ∈ lifetime.status, object ∉ lifetime.running
  | _ => True

/-- The count is that of the servers, of those in the making or about to be uncounted, and
of the constructors that threw. -/
structure Counted (lifetime : Lifetime) : Prop where
  small : lifetime.count < 2 ^ 32
  total : lifetime.count = lifetime.servers + lifetime.failed + lifetime.passages.countP Passage.counted

theorem counted_start : Counted {} := ⟨by decide, rfl⟩

theorem perform_counted {passage : Passage} {refused : Bool} {others : Nat} (small : lifetime.count < 2 ^ 32)
    (total : lifetime.count = lifetime.servers + lifetime.failed + [passage].countP Passage.counted + others)
    (room : passage = .count → lifetime.count + 1 < 2 ^ 32) :
    (lifetime.perform refused passage).1.count < 2 ^ 32 ∧
      (lifetime.perform refused passage).1.count =
        (lifetime.perform refused passage).1.servers + (lifetime.perform refused passage).1.failed +
          (lifetime.perform refused passage).2.toList.countP Passage.counted + others := by
  cases passage with
  | count =>
    have one : [Passage.count].countP Passage.counted = 0 := rfl
    rw [perform, Nat.mod_eq_of_lt (room rfl)]
    refine ⟨room rfl, ?_⟩
    dsimp only
    split_ifs <;> simp [Passage.counted] <;> omega
  | uncount =>
    have one : [Passage.uncount].countP Passage.counted = 1 := rfl
    have positive : lifetime.count ≠ 0 := by omega
    rw [perform, if_neg positive]
    refine ⟨Nat.lt_of_le_of_lt (Nat.sub_le _ _) small, ?_⟩
    dsimp only
    split_ifs <;> simp [Passage.counted] <;> omega
  | allocate | openPoll =>
    rw [perform]
    split_ifs <;> refine ⟨small, ?_⟩ <;> simp [Passage.counted] at total ⊢ <;> omega
  | delete =>
    rw [perform]
    split <;> exact ⟨small, total⟩
  | assign object => exact ⟨small, total⟩
  | stop => exact ⟨small, total⟩
  | clear => exact ⟨small, total⟩

theorem Counted.step (counted : lifetime.Counted) (bounded : Bounded lifetime act) (step : Step act lifetime after) :
    after.Counted := by
  obtain ⟨small, total⟩ := counted
  cases step with
  | construct => exact ⟨small, by simpa [Passage.counted] using total⟩
  | destruct present => exact ⟨small, by simp [Passage.counted]; omega⟩
  | report | work | exit => exact ⟨small, total⟩
  | @advance _ before rest passage refused split =>
    have pending : lifetime.passages.countP Passage.counted =
        [passage].countP Passage.counted + (before.countP Passage.counted + rest.countP Passage.counted) := by
      rw [split, List.countP_append, List.countP_cons, List.countP_singleton]
      omega
    rw [pending, ← Nat.add_assoc] at total
    have done := @perform_counted lifetime passage refused _ small total (fun same => by subst same; exact bounded)
    refine ⟨done.1, done.2.trans ?_⟩
    dsimp only
    rw [List.countP_append, List.countP_append]
    omega

/-- What the count, the pointer and the objects are, by what is between them. -/
def Agrees (lifetime : Lifetime) : List Passage → Prop
  | [] => (lifetime.count = 0 → lifetime.status = none ∧ lifetime.objects = []) ∧
      (lifetime.count ≠ 0 → ∃ object, lifetime.status = some object ∧ lifetime.objects = [object])
  | [.allocate] => lifetime.count = 1 ∧ lifetime.status = none ∧ lifetime.objects = []
  | [.assign object] => lifetime.count = 1 ∧ lifetime.status = none ∧ lifetime.objects = [object]
  | [.stop] | [.delete] => lifetime.count = 0 ∧ ∃ object, lifetime.status = some object ∧ lifetime.objects = [object]
  | [.clear] => lifetime.count = 0 ∧ lifetime.objects = []
  | _ => False

structure Shared (lifetime : Lifetime) : Prop where
  counted : lifetime.Counted
  agrees : lifetime.Agrees (lifetime.passages.filter Passage.inside)
  sound : lifetime.fault = false

theorem shared_start : Shared {} := ⟨counted_start, ⟨fun _ => ⟨rfl, rfl⟩, fun positive => absurd rfl positive⟩, rfl⟩

theorem bounded_of_guarded (guarded : Guarded lifetime act) : Bounded lifetime act := by
  cases act with
  | advance passage refused => cases passage <;> first | exact guarded.1 | trivial
  | construct | destruct | report | work | exit => trivial

theorem touch_sound {object : Nat} (sound : lifetime.fault = false) (status : lifetime.status = some object)
    (objects : lifetime.objects = [object]) : lifetime.touch = lifetime := by
  have found : lifetime.status.any (· ∈ lifetime.objects) = true := by simp [status, objects]
  rw [touch, found, sound]
  exact congrArg (fun fault => { lifetime with fault }) sound.symm

theorem Shared.status (shared : lifetime.Shared) (present : 0 < lifetime.servers) :
    ∃ object, lifetime.status = some object ∧ lifetime.objects = [object] := by
  obtain ⟨⟨_, total⟩, agrees, _⟩ := shared
  have inner : (lifetime.passages.filter Passage.inside).countP Passage.counted ≤ lifetime.passages.countP Passage.counted :=
    List.filter_sublist.countP_le
  generalize lifetime.passages.filter Passage.inside = inside at agrees inner
  unfold Agrees at agrees
  split at agrees
  · exact agrees.2 (by omega)
  · have one : [Passage.allocate].countP Passage.counted = 1 := rfl
    omega
  next object =>
    have one : [Passage.assign object].countP Passage.counted = 1 := rfl
    omega
  · omega
  · omega
  · omega
  · exact absurd agrees id

theorem filter_split {before rest : List Passage} {passage : Passage} {next : Option Passage} (split : lifetime.passages = before ++ passage :: rest) :
    lifetime.passages.filter Passage.inside = before.filter Passage.inside ++ [passage].filter Passage.inside ++ rest.filter Passage.inside ∧
      (before ++ next.toList ++ rest).filter Passage.inside =
        before.filter Passage.inside ++ next.toList.filter Passage.inside ++ rest.filter Passage.inside := by
  rw [split, List.filter_append, List.filter_append, List.filter_append, ← List.singleton_append, List.filter_append,
    List.append_assoc]
  exact ⟨rfl, rfl⟩

theorem Agrees.alone {before rest : List Passage} {passage : Passage} (inner : passage.inside)
    (agrees : lifetime.Agrees (before ++ passage :: rest)) : before = [] ∧ rest = [] := by
  cases before with
  | nil =>
    cases rest with
    | nil => exact ⟨rfl, rfl⟩
    | cons other rest =>
      unfold Agrees at agrees
      cases passage <;> cases agrees
  | cons other before =>
    unfold Agrees at agrees
    cases other <;> cases before <;> cases agrees

theorem perform_openPoll (lifetime : Lifetime) (refused : Bool) :
    (lifetime.perform refused .openPoll).2 = none ∧
      ∃ servers failed, lifetime.failed ≤ failed ∧ (lifetime.perform refused .openPoll).1 = { lifetime with servers, failed } := by
  cases refused with
  | false => exact ⟨rfl, _, _, Nat.le_refl _, rfl⟩
  | true => exact ⟨rfl, _, _, Nat.le_succ _, rfl⟩

/-- A step of a passage while no other is in between. -/
theorem perform_agrees {passage : Passage} {refused : Bool} (agrees : lifetime.Agrees ([passage].filter Passage.inside))
    (sound : lifetime.fault = false) (room : passage = .count → lifetime.count + 1 < 2 ^ 32)
    (positive : passage = .uncount → 0 < lifetime.count) (made : passage = .allocate → ¬ refused) :
    (lifetime.perform refused passage).1.Agrees ((lifetime.perform refused passage).2.toList.filter Passage.inside) ∧
      (lifetime.perform refused passage).1.fault = false := by
  cases passage with
  | count =>
    have outside : [Passage.count].filter Passage.inside = [] := rfl
    rw [outside, Agrees] at agrees
    rw [perform, Nat.mod_eq_of_lt (room rfl)]
    refine ⟨?_, sound⟩
    by_cases first : lifetime.count = 0
    · rw [if_pos first]
      exact ⟨by rw [first], agrees.1 first⟩
    · rw [if_neg first]
      exact ⟨fun zero => absurd zero (Nat.succ_ne_zero _), fun _ => agrees.2 first⟩
  | allocate =>
    obtain ⟨one, status, objects⟩ : lifetime.count = 1 ∧ lifetime.status = none ∧ lifetime.objects = [] := agrees
    rw [perform, if_neg (made rfl)]
    exact ⟨⟨one, status, by rw [objects]⟩, sound⟩
  | assign object =>
    obtain ⟨one, _, objects⟩ : lifetime.count = 1 ∧ lifetime.status = none ∧ lifetime.objects = [object] := agrees
    refine ⟨?_, sound⟩
    exact ⟨fun zero => absurd (one.symm.trans zero) Nat.one_ne_zero, fun _ => ⟨object, rfl, objects⟩⟩
  | openPoll =>
    rw [perform]
    split_ifs <;> exact ⟨agrees, sound⟩
  | uncount =>
    have outside : [Passage.uncount].filter Passage.inside = [] := rfl
    have positive : lifetime.count ≠ 0 := Nat.ne_of_gt (positive rfl)
    rw [outside, Agrees] at agrees
    have present := agrees.2 positive
    rw [perform, if_neg positive]
    refine ⟨?_, sound⟩
    by_cases last : lifetime.count - 1 = 0
    · rw [if_pos last]
      exact ⟨last, present⟩
    · rw [if_neg last]
      exact ⟨fun zero => absurd zero last, fun _ => present⟩
  | stop =>
    obtain ⟨zero, object, status, objects⟩ : lifetime.count = 0 ∧ ∃ object, lifetime.status = some object ∧
      lifetime.objects = [object] := agrees
    rw [perform, touch_sound sound status objects]
    exact ⟨⟨zero, object, status, objects⟩, sound⟩
  | delete =>
    obtain ⟨zero, object, status, objects⟩ : lifetime.count = 0 ∧ ∃ object, lifetime.status = some object ∧
      lifetime.objects = [object] := agrees
    rw [perform, status]
    exact ⟨⟨zero, by simp [objects]⟩, by simp [sound, objects]⟩
  | clear =>
    obtain ⟨zero, objects⟩ : lifetime.count = 0 ∧ lifetime.objects = [] := agrees
    exact ⟨⟨fun _ => ⟨rfl, objects⟩, fun positive => absurd zero positive⟩, sound⟩

theorem Shared.step (shared : lifetime.Shared) (guarded : Guarded lifetime act) (step : Step act lifetime after) :
    after.Shared := by
  have counted := shared.counted.step (bounded_of_guarded guarded) step
  cases step with
  | construct =>
    refine ⟨counted, ?_, shared.sound⟩
    have same : (lifetime.passages ++ [Passage.count]).filter Passage.inside = lifetime.passages.filter Passage.inside := by
      simp [Passage.inside]
    rw [same]
    exact shared.agrees
  | destruct present =>
    refine ⟨counted, ?_, shared.sound⟩
    have same : (lifetime.passages ++ [Passage.uncount]).filter Passage.inside = lifetime.passages.filter Passage.inside := by
      simp [Passage.inside]
    rw [same]
    exact shared.agrees
  | report present =>
    obtain ⟨object, status, objects⟩ := shared.status present
    rw [touch_sound shared.sound status objects]
    exact shared
  | work | exit => exact ⟨counted, shared.agrees, shared.sound⟩
  | @advance _ before rest passage refused split =>
    obtain ⟨old, new⟩ := @filter_split lifetime before rest passage (lifetime.perform refused passage).2 split
    have agrees := shared.agrees
    rw [old] at agrees
    -- either no other passage is in between, or this one only opens its poll
    by_cases opens : passage = .openPoll
    · subst opens
      obtain ⟨none, servers, failed, -, same⟩ := perform_openPoll lifetime refused
      refine ⟨counted, ?_, ?_⟩
      · dsimp only
        rw [new, none, same]
        exact agrees
      · rw [same]
        exact shared.sound
    · have alone : before.filter Passage.inside = [] ∧ rest.filter Passage.inside = [] := by
        have idle (free : ∀ passage ∈ lifetime.passages, ¬ passage.inside) :
            before.filter Passage.inside = [] ∧ rest.filter Passage.inside = [] := by
          rw [split] at free
          exact ⟨List.filter_eq_nil_iff.mpr fun other member => free other (by simp [member]),
            List.filter_eq_nil_iff.mpr fun other member => free other (by simp [member])⟩
        by_cases inner : passage.inside = true
        · rw [List.filter_singleton, inner, cond_true, List.append_assoc] at agrees
          exact Agrees.alone inner agrees
        · cases passage with
          | count => exact idle guarded.2
          | uncount => exact idle guarded
          | openPoll => exact absurd rfl opens
          | allocate | assign | stop | delete | clear => exact absurd rfl inner
      rw [alone.1, alone.2, List.append_nil, List.nil_append] at agrees new
      have total := shared.counted.total
      have done := @perform_agrees lifetime passage refused agrees shared.sound (fun same => by subst same; exact guarded.1)
        (fun same => by rw [total, split, same]; simp [Passage.counted])
        (fun same => by subst same; exact guarded)
      exact ⟨counted, by dsimp only; rw [new]; exact done.1, done.2⟩

theorem shared_run (run : Run Guarded {} lifetime) : lifetime.Shared := by
  induction run with
  | refl => exact shared_start
  | tail _ step ih =>
    obtain ⟨act, guarded, step⟩ := step
    exact ih.step guarded step

theorem Agrees.single {inside : List Passage} (agrees : lifetime.Agrees inside) : lifetime.objects.length ≤ 1 := by
  unfold Agrees at agrees
  split at agrees
  · by_cases zero : lifetime.count = 0
    · simp [(agrees.1 zero).2]
    · obtain ⟨object, _, objects⟩ := agrees.2 zero
      simp [objects]
  · simp [agrees.2.2]
  · simp [agrees.2.2]
  · obtain ⟨_, object, _, objects⟩ := agrees
    simp [objects]
  · obtain ⟨_, object, _, objects⟩ := agrees
    simp [objects]
  · simp [agrees.2]
  · exact absurd agrees id

/-- No thread has outlived its object. -/
structure Waited (lifetime : Lifetime) : Prop where
  present : lifetime.running ⊆ lifetime.objects
  early : lifetime.late = false

theorem Waited.step (waited : lifetime.Waited) (awaited : Awaited lifetime act) (step : Step act lifetime after) :
    after.Waited := by
  obtain ⟨present, early⟩ := waited
  cases step with
  | construct | destruct | report => exact ⟨present, early⟩
  | @work _ object running =>
    have there := present running
    exact ⟨present, by simp [early, there]⟩
  | exit running => exact ⟨fun object member => present (List.mem_of_mem_erase member), early⟩
  | @advance _ before rest passage refused split =>
    cases passage with
    | allocate =>
      cases refused with
      | true => exact ⟨present, early⟩
      | false => exact ⟨List.cons_subset_cons _ present, early⟩
    | openPoll => cases refused <;> exact ⟨present, early⟩
    | delete =>
      cases found : lifetime.status with
      | none => exact ⟨by simpa [perform, found] using present, by simpa [perform, found] using early⟩
      | some object =>
        have ended : object ∉ lifetime.running := awaited object found
        refine ⟨fun other member => ?_, by simpa [perform, found] using early⟩
        have other_running : other ∈ lifetime.running := by simpa [perform, found] using member
        have different : other ≠ object := fun same => ended (same ▸ other_running)
        simpa [perform, found] using (List.mem_erase_of_ne different).mpr (present other_running)
    | count | assign | uncount | stop | clear => exact ⟨present, early⟩

theorem waited_run (run : Run Awaited {} lifetime) : lifetime.Waited := by
  induction run with
  | refl => exact ⟨List.Subset.refl _, rfl⟩
  | tail _ step ih =>
    obtain ⟨act, awaited, step⟩ := step
    exact ih.step awaited step

/-- As under a lock, no server and no destructor uses a `Status` that is not there. While a
server is there, so is the one `Status`; when the last is gone, and no constructor ever
threw, it is too. Its own thread uses it no longer if it is at its end by then. -/
theorem status_shared :
    (Run Guarded {} lifetime → lifetime.fault = false ∧ lifetime.objects.length ≤ 1 ∧
      lifetime.count = lifetime.servers + lifetime.failed + lifetime.passages.countP Passage.counted ∧
      (0 < lifetime.servers → ∃ object, lifetime.status = some object ∧ lifetime.objects = [object]) ∧
      (lifetime.passages = [] → lifetime.servers = 0 → lifetime.failed = 0 → lifetime.status = none ∧ lifetime.objects = [])) ∧
    (Run Awaited {} lifetime → lifetime.late = false) := by
  refine ⟨fun run => ?_, fun run => (waited_run run).early⟩
  have shared := shared_run run
  refine ⟨shared.sound, shared.agrees.single, shared.counted.total, shared.status, fun idle none kept => ?_⟩
  have total := shared.counted.total
  have agrees := shared.agrees
  rw [idle, none, kept] at total
  rw [idle] at agrees
  exact agrees.1 total

theorem Run.go {kind : Lifetime → Act → Prop} {start : Lifetime} (act : Act) (run : Run kind start lifetime)
    (allowed : kind lifetime act) (step : Step act lifetime after) : Run kind start after :=
  .tail run ⟨act, allowed, step⟩

theorem Step.only {passage : Passage} (refused : Bool) (alone : lifetime.passages = [passage]) :
    Step (.advance passage refused) lifetime
      { (lifetime.perform refused passage).1 with passages := (lifetime.perform refused passage).2.toList } := by
  have step := @Step.advance lifetime [] [] passage refused alone
  rwa [List.nil_append, List.append_nil] at step

/-- A server with its `Status`. -/
def served : Lifetime := { count := 1, status := some 0, made := 1, objects := [0], running := [0], servers := 1 }

theorem served_run : Run (fun lifetime act => Guarded lifetime act ∧ Awaited lifetime act) {} served :=
  ((((Run.go .construct .refl ⟨trivial, trivial⟩ .construct).go (.advance .count false) ⟨⟨by decide, by decide⟩, trivial⟩
    (.only false rfl)).go (.advance .allocate false) ⟨Bool.noConfusion, trivial⟩ (.only false rfl)).go (.advance (.assign 0) false)
    ⟨trivial, trivial⟩ (.only false rfl)).go (.advance .openPoll false) ⟨trivial, trivial⟩ (.only false rfl)

/-- The server goes, when the thread of its `Status` has worked once and seen `Stop`. -/
theorem gone_run : Run (fun lifetime act => Guarded lifetime act ∧ Awaited lifetime act) {} { made := 1 } := by
  have alone : ∀ passage ∈ [Passage.uncount], ¬ passage.inside := by decide
  have ended : ∀ object ∈ some 0, object ∉ ([] : List Nat) := by decide
  exact ((((((served_run.go (.work 0) ⟨trivial, trivial⟩ (.work (by decide))).go .destruct ⟨trivial, trivial⟩
    (.destruct (by decide))).go (.advance .uncount false) ⟨alone, trivial⟩ (.only false rfl)).go (.advance .stop false)
    ⟨trivial, trivial⟩ (.only false rfl)).go (.exit 0) ⟨trivial, trivial⟩ (.exit (by decide))).go (.advance .delete false)
    ⟨trivial, ended⟩ (.only false rfl)).go (.advance .clear false) ⟨trivial, trivial⟩ (.only false rfl)

/-- The second of two constructors is through before the first has made the `Status`, and its server uses it. -/
theorem unshared_run : Run Bounded {} { count := 2, servers := 1, passages := [.allocate], fault := true } :=
  (((((Run.go .construct .refl trivial .construct).go .construct trivial .construct).go (.advance .count false)
    (by decide : 0 + 1 < 2 ^ 32) (@Step.advance _ [] [.count] _ false rfl)).go (.advance .count false) (by decide : 1 + 1 < 2 ^ 32)
    (@Step.advance _ [.allocate] [] _ false rfl)).go (.advance .openPoll false) trivial
    (@Step.advance _ [.allocate] [] _ false rfl)).go .report trivial (.report (by decide))

/-- With the first constructors of two servers at once, one uses a null pointer. -/
theorem status_shared_gone :
    let gone : Lifetime := { made := 1 }
    gone.fault = false ∧ gone.objects = [] ∧ gone.status = none ∧ gone.late = false ∧
      served.status = some 0 ∧ ∃ lifetime, Run Bounded {} lifetime ∧ lifetime.fault = true := by
  intro gone
  have through : Run Guarded {} gone := Relation.ReflTransGen.mono (fun _ _ ⟨act, allowed, step⟩ => ⟨act, allowed.1, step⟩) _ _ gone_run
  have awaited : Run Awaited {} gone := Relation.ReflTransGen.mono (fun _ _ ⟨act, allowed, step⟩ => ⟨act, allowed.2, step⟩) _ _ gone_run
  obtain ⟨sound, _, _, _, none⟩ := status_shared.1 through
  obtain ⟨status, objects⟩ := none rfl rfl rfl
  exact ⟨sound, objects, status, status_shared.2 awaited, rfl, _, unshared_run, rfl⟩

theorem counted_run {start : Lifetime} (counted : start.Counted) (run : Run Bounded start lifetime) : lifetime.Counted := by
  induction run with
  | refl => exact counted
  | tail _ step ih =>
    obtain ⟨act, bounded, step⟩ := step
    exact ih.step bounded step

/-- Nothing is made or destroyed. -/
structure Settled (start lifetime : Lifetime) : Prop where
  thrown : 0 < lifetime.failed
  idle : ∀ passage ∈ lifetime.passages, ¬ passage.inside
  status : lifetime.status = start.status
  objects : lifetime.objects = start.objects

theorem Settled.step {start : Lifetime} (settled : Settled start lifetime) (counted : lifetime.Counted)
    (bounded : Bounded lifetime act) (step : Step act lifetime after) : Settled start after := by
  obtain ⟨thrown, idle, status, objects⟩ := settled
  obtain ⟨small, total⟩ := counted
  have begun {passage : Passage} (outside : ¬ passage.inside) : ∀ other ∈ lifetime.passages ++ [passage], ¬ other.inside := by
    intro other member
    rcases List.mem_append.mp member with member | member
    · exact idle other member
    · rw [List.mem_singleton.mp member]
      exact outside
  cases step with
  | construct => exact ⟨thrown, begun Bool.noConfusion, status, objects⟩
  | destruct => exact ⟨thrown, begun Bool.noConfusion, status, objects⟩
  | report | work | exit => exact ⟨thrown, idle, status, objects⟩
  | @advance _ before rest passage refused split =>
    have outside : ¬ passage.inside := idle passage (by rw [split]; simp)
    have others (next : Option Passage) (free : ∀ passage ∈ next, ¬ passage.inside) :
        ∀ other ∈ before ++ next.toList ++ rest, ¬ other.inside := by
      intro other member
      rw [split] at idle
      rw [List.append_assoc, List.mem_append, List.mem_append, Option.mem_toList] at member
      rcases member with member | member | member
      · exact idle other (by simp [member])
      · exact free other member
      · exact idle other (by simp [member])
    cases passage with
    | count =>
      -- a constructor that threw is still counted, so this one is not the first
      have present : lifetime.count ≠ 0 := by omega
      refine ⟨thrown, others _ ?_, status, objects⟩
      rw [perform, if_neg present]
      intro passage member
      cases member
      exact Bool.noConfusion
    | uncount =>
      have mine : 0 < lifetime.passages.countP Passage.counted := by
        rw [split]
        simp [Passage.counted]
      have present : lifetime.count ≠ 0 := by omega
      have later : lifetime.count - 1 ≠ 0 := by omega
      have done : lifetime.perform refused .uncount = ({ lifetime with count := lifetime.count - 1 }, none) := by
        rw [perform, if_neg present]
        exact congrArg _ (if_neg later)
      rw [done]
      exact ⟨thrown, others none nofun, status, objects⟩
    | openPoll =>
      obtain ⟨ends, servers, failed, more, same⟩ := perform_openPoll lifetime refused
      rw [ends, same]
      exact ⟨Nat.lt_of_lt_of_le thrown more, others none nofun, status, objects⟩
    | allocate | assign | stop | delete | clear => exact absurd rfl outside

/-- A constructor that throws leaves its server counted. From then on, in any order of steps,
no `Status` is made or destroyed: the one that is there stays, and if none is, no server
made later has one. -/
theorem failed_stays (run : Run Bounded {} lifetime) (thrown : 0 < lifetime.failed)
    (idle : ∀ passage ∈ lifetime.passages, ¬ passage.inside) (more : Run Bounded lifetime after) :
    after.status = lifetime.status ∧ after.objects = lifetime.objects := by
  have counted := counted_run counted_start run
  suffices settled : Settled lifetime after from ⟨settled.status, settled.objects⟩
  induction more with
  | refl => exact ⟨thrown, idle, rfl, rfl⟩
  | tail before step ih =>
    obtain ⟨act, bounded, step⟩ := step
    exact ih.step (counted_run counted before) bounded step

/-- The system has no thread for `Status`, so the next server is left without one. -/
theorem failed_stays_threadless :
    let alone : Lifetime := { count := 1, failed := 1 }
    let next : Lifetime := { count := 2, failed := 1, servers := 1 }
    Run Bounded alone next ∧ 0 < next.servers ∧ next.status = alone.status ∧ next.objects = alone.objects := by
  have refused : Run Bounded {} { count := 1, failed := 1 } :=
    .tail (.tail (.single ⟨.construct, trivial, .construct⟩)
      ⟨.advance .count false, (by decide : 0 + 1 < 2 ^ 32), @Step.advance { passages := [.count] } [] [] .count false rfl⟩)
      ⟨.advance .allocate true, trivial, @Step.advance { count := 1, passages := [.allocate] } [] [] .allocate true rfl⟩
  have made : Run Bounded { count := 1, failed := 1 } { count := 2, failed := 1, servers := 1 } :=
    .tail (.tail (.single ⟨.construct, trivial, .construct⟩)
      ⟨.advance .count false, (by decide : 1 + 1 < 2 ^ 32),
        @Step.advance { count := 1, failed := 1, passages := [.count] } [] [] .count false rfl⟩)
      ⟨.advance .openPoll false, trivial, @Step.advance { count := 2, failed := 1, passages := [.openPoll] } [] [] .openPoll false rfl⟩
  exact ⟨made, by decide, failed_stays refused (by decide) (by decide) made⟩

end Lifetime
end LibWebserver
