import Mos6502.Proofs.Batches
import Mos6502.Proofs.ParallelEmission

/-!
# The limit for nested macros only rejects

A macro may answer with source text that calls macros again, itself among them.
Each pass goes from a line into the lines of its expansion, and from these into
theirs, up to the limit. So it comes to finitely many lines. Beyond the limit it
reports an error, unless the second pass has to be silent about the line since
the first has reported one. Whatever is accepted under one limit is accepted
under every higher one, with the same output.

Main statement: `depth_limit_only_rejects`.
-/
namespace Mos6502

/-! ## Calls that end -/

/-- No chain of calls goes on without end, and in all finitely many are reached. -/
structure CallsEnd {α : Type} (roots : Set α) (calls : α → α → Prop) : Prop where
  chains : WellFounded fun y x => calls x y
  reached : {y | ∃ x ∈ roots, Relation.ReflTransGen calls x y}.Finite

theorem callsEnd_of_rank {α : Type} {roots : Set α} {calls : α → α → Prop} (rank : α → Nat)
    (hrank : ∀ x y, calls x y → rank y < rank x) (hcalls : ∀ x, {y | calls x y}.Finite) (hroots : roots.Finite) :
    CallsEnd roots calls := by
  have hchains : WellFounded fun y x => calls x y :=
    Subrelation.wf (fun {y x} h => hrank x y h) (measure rank).wf
  have hreached (x : α) : {y | Relation.ReflTransGen calls x y}.Finite := by
    induction x using hchains.induction with
    | _ x ih =>
      refine ((Set.finite_singleton x).union ((hcalls x).biUnion ih)).subset fun y hy => ?_
      rcases Relation.ReflTransGen.cases_head hy with rfl | ⟨z, hxz, hzy⟩
      · exact .inl rfl
      · exact .inr (Set.mem_biUnion hxz hzy)
  refine ⟨hchains, (hroots.biUnion fun x _ => hreached x).subset ?_⟩
  rintro y ⟨x, hx, hxy⟩
  exact Set.mem_biUnion hx hxy

/-- What is found under indices below a bound is finite. -/
theorem finite_of_index {α : Type} (n : Nat) (f : Nat → Option α) {s : Set α}
    (h : ∀ y ∈ s, ∃ i < n, f i = some y) : s.Finite := by
  refine (((Set.finite_lt_nat n).image f).preimage (Option.some_injective α).injOn).subset fun y hy => ?_
  obtain ⟨i, hi, hf⟩ := h y hy
  exact ⟨i, hi, hf⟩

namespace Assembly

/-! ## Going into expansions -/

/-- A line to which a pass comes in a state, inside so many expansions. -/
structure Visit (σ : Type) where
  state : σ
  depth : Nat
  line : Line

/-- The source text that a line calls for, with the name of the macro. -/
def calledText? (expand : String → String → Except Macro.Error Macro.Output) (l : Line) : Option (String × String) :=
  match l.statement with
  | some (.invocation name arguments) =>
    match expand name arguments with
    | .ok (.source text) => some (name, text)
    | _ => none
  | _ => none

theorem calledText?_eq_some {expand : String → String → Except Macro.Error Macro.Output} {l : Line}
    {name text : String} (h : calledText? expand l = some (name, text)) :
    ∃ arguments, l.statement = some (.invocation name arguments) ∧ expand name arguments = .ok (.source text) := by
  unfold calledText? at h
  split at h
  · rename_i name arguments hst
    split at h
    · rename_i text hexpand
      cases h
      exact ⟨arguments, hst, hexpand⟩
    · cases h
  · cases h

/-- How a pass goes into expansions. -/
structure Descent (σ : Type) where
  /-- The source text that a line calls for, with the name of the macro. -/
  text? : Visit σ → Option (String × String)
  /-- The state after some lines of the expansion. -/
  inside : Visit σ → String → List (List Char) → σ

namespace Descent
variable {σ : Type} (d : Descent σ) (limit : Nat)

/-- The pass goes from a line into a line of its expansion, if the limit allows it. -/
structure Calls (v w : Visit σ) : Prop where
  deeper : w.depth = v.depth + 1
  allowed : v.depth < limit
  line : ∃ name text i line, d.text? v = some (name, text) ∧ (Lines.split text.toList)[i]? = some line ∧
    Line.read line v.line.number = .ok w.line ∧ w.state = d.inside v name ((Lines.split text.toList).take i)

variable {d limit}

theorem finite_calls (v : Visit σ) : {w | d.Calls limit v w}.Finite := by
  cases htext : d.text? v with
  | none =>
    refine Set.finite_empty.subset fun w hw => ?_
    obtain ⟨name, text, i, line, hsome, -⟩ := hw.line
    cases htext.symm.trans hsome
  | some called =>
    obtain ⟨name, text⟩ := called
    refine finite_of_index (Lines.split text.toList).length
      (fun i => (Lines.split text.toList)[i]?.bind fun line => (Line.read line v.line.number).toOption.map fun inner =>
        ⟨d.inside v name ((Lines.split text.toList).take i), v.depth + 1, inner⟩) fun w hw => ?_
    obtain ⟨name', text', i, line, hsome, hline, hread, hstate⟩ := hw.line
    obtain ⟨rfl, rfl⟩ := Prod.mk.inj (Option.some.inj (htext.symm.trans hsome))
    refine ⟨i, (List.getElem?_eq_some_iff.1 hline).1, ?_⟩
    have hdepth := hw.deeper
    cases w
    simp_all [Except.toOption]

/-- A pass comes to finitely many lines. -/
theorem callsEnd {roots : Set (Visit σ)} (h : roots.Finite) : CallsEnd roots (d.Calls limit) := by
  refine callsEnd_of_rank (fun v => limit - v.depth) (fun v w hcalls => ?_) finite_calls h
  have hdeeper := hcalls.deeper
  have hallowed := hcalls.allowed
  omega

/-- A chain of so many source texts, each called for in the one before, ends in a call on the line. -/
def Nests (d : Descent σ) (limit : Nat) (roots : Set (Visit σ)) (length n : Nat) : Prop :=
  ∃ root ∈ roots, ∃ v, Relation.ReflTransGen (d.Calls limit) root v ∧ d.text? v ≠ none ∧ length = v.depth + 1 ∧
    n = v.line.number

end Descent

/-! ## The first pass -/

namespace Layout
variable (registry : Macro.Registry) (limit : Nat)

def descent : Descent Layout where
  text? v := calledText? (fun name arguments =>
    registry.expand name arguments (v.state.labelled v.line).context .first) v.line
  inside v name before :=
    ((v.state.labelled v.line).lines registry limit (limit - (v.depth + 1)) v.line name before).1

/-- What the pass leaves behind at a line. -/
def after (v : Visit Layout) : Layout :=
  (v.state.line registry limit (limit - v.depth) v.line).1

variable {registry limit}

/-- The errors of a line of an expansion are errors of the line that calls for it. -/
theorem after_extends {v w : Visit Layout} (h : (descent registry limit).Calls limit v w) :
    (after registry limit w).Extends (after registry limit v) := by
  obtain ⟨name, text, i, line, htext, hline, hread, hstate⟩ := h.line
  obtain ⟨arguments, hst, hexpand⟩ := calledText?_eq_some htext
  have hlevels : limit - v.depth = limit - (v.depth + 1) + 1 := by have := h.allowed; omega
  have hupto := steps_extends.lines registry limit (limit - (v.depth + 1)) v.line name (v.state.labelled v.line)
    ((Lines.split text.toList).take (i + 1)) ((Lines.split text.toList).drop (i + 1))
  rw [List.take_append_drop, take_succ_of_getElem? hline, lines_concat] at hupto
  simp only [textLine, hread] at hupto
  unfold after
  rw [hstate, h.deeper, hlevels, line_eq registry limit _ v.state]
  simp only [hst]
  rw [expansion_source _ _ _ _ _ hexpand]
  exact hupto

/-- A call for source text beyond the limit is an error. -/
theorem after_tooDeep {v : Visit Layout} {name text : String}
    (htext : (descent registry limit).text? v = some (name, text)) (h : limit ≤ v.depth) :
    ⟨.tooDeep name limit, v.line.number, v.line.column, .first⟩ ∈ (after registry limit v).errors := by
  obtain ⟨arguments, hst, hexpand⟩ := calledText?_eq_some htext
  unfold after
  rw [Nat.sub_eq_zero_of_le h, line_eq]
  simp [hst, expansion, hexpand, report]

end Layout

/-! ## The second pass -/

namespace Emission
variable (env : Setting)

/-- The state has the plan of the line with it. -/
def descent : Descent (Emission × Plan) where
  text? v := calledText? (fun name arguments =>
    env.registry.expand name arguments ((v.state.1.labelled env v.line).context env) .second) v.line
  inside v name before :=
    (((v.state.1.labelled env v.line).splice env (line env (env.limit - (v.depth + 1))) v.state.2 v.line name 0 before).1,
      v.state.2.line before.length)

/-- What the pass leaves behind at a line. -/
def after (v : Visit (Emission × Plan)) : Emission :=
  (v.state.1.line env (env.limit - v.depth) v.state.2 v.line).1

variable {env}

theorem after_grows {v w : Visit (Emission × Plan)} (h : (descent env).Calls env.limit v w) :
    (after env w).errors.toList <+: (after env v).errors.toList := by
  obtain ⟨name, text, i, line, htext, hline, hread, hstate⟩ := h.line
  obtain ⟨arguments, hst, hexpand⟩ := calledText?_eq_some htext
  have hlevels : env.limit - v.depth = env.limit - (v.depth + 1) + 1 := by have := h.allowed; omega
  have hlength : ((Lines.split text.toList).take i).length = i :=
    List.length_take_of_le (Nat.le_of_lt (List.getElem?_eq_some_iff.1 hline).1)
  have hupto := (steps_grows env).splice_take ((steps_grows env).line (env.limit - (v.depth + 1))) v.state.2 v.line name
    (v.state.1.labelled env v.line) (Lines.split text.toList) (i + 1)
  rw [splice_take_succ hline] at hupto
  simp only [textLine, hread] at hupto
  unfold after
  rw [hstate, h.deeper, hlevels, line_eq env _ v.state.1]
  simp only [hst]
  refine List.IsPrefix.trans ?_ (checkSize_reports _ _ _ _ _ _).grows
  rw [expansion_source _ hexpand]
  simpa only [descent, hlength] using hupto

/-- A call for source text beyond the limit is an error, unless the line has failed before. -/
theorem after_tooDeep {v : Visit (Emission × Plan)} {name text : String}
    (htext : (descent env).text? v = some (name, text)) (h : env.limit ≤ v.depth)
    (hf : v.line.number ∉ env.failed) :
    ⟨.tooDeep name env.limit, v.line.number, v.line.column, .second⟩ ∈ (after env v).errors.toList := by
  obtain ⟨arguments, hst, hexpand⟩ := calledText?_eq_some htext
  unfold after
  rw [Nat.sub_eq_zero_of_le h, line_eq]
  simp only [hst]
  refine (checkSize_reports _ _ _ _ _ _).grows.subset ?_
  simp [expansion, hexpand, report, hf]

end Emission

/-! ## Whole sources -/

section Source
variable (settings : Settings) (registry : Macro.Registry) (source : String)

/-- The lines of the source as the first pass comes to them. -/
def firstVisits : Set (Visit Layout) :=
  {v | ∃ k text, (readSource source)[k]? = some (text, .ok v.line) ∧
    v.state = (Layout.pass registry settings.maxDepth ((parsed source).take k)).1 ∧ v.depth = 0}

/-- The lines of the source as the second pass comes to them. -/
def secondVisits : Set (Visit (Emission × Plan)) :=
  {v | ∃ k text plan, (planned settings registry source)[k]? = some ((text, .ok v.line), plan) ∧
    v.state =
      ((Emission.run (environment settings registry source) ((planned settings registry source).take k)).1, plan) ∧
    v.depth = 0}

theorem finite_firstVisits : (firstVisits settings registry source).Finite := by
  refine finite_of_index (readSource source).length
    (fun k => (readSource source)[k]?.bind fun x => x.2.toOption.map fun l =>
      ⟨(Layout.pass registry settings.maxDepth ((parsed source).take k)).1, 0, l⟩) ?_
  rintro ⟨state, depth, line⟩ ⟨k, text, hline, rfl, rfl⟩
  exact ⟨k, (List.getElem?_eq_some_iff.1 hline).1, by simp [hline, Except.toOption]⟩

theorem finite_secondVisits : (secondVisits settings registry source).Finite := by
  refine finite_of_index (planned settings registry source).length
    (fun k => (planned settings registry source)[k]?.bind fun x => x.1.2.toOption.map fun l =>
      ⟨((Emission.run (environment settings registry source) ((planned settings registry source).take k)).1, x.2),
        0, l⟩) ?_
  rintro ⟨state, depth, line⟩ ⟨k, text, plan, hline, rfl, rfl⟩
  exact ⟨k, (List.getElem?_eq_some_iff.1 hline).1, by simp [hline, Except.toOption]⟩

/-- A chain of so many source texts, each called for in the one before, ends in a call on the line. -/
def Nests : Pass → Nat → Nat → Prop
  | .first => (Layout.descent registry settings.maxDepth).Nests settings.maxDepth (firstVisits settings registry source)
  | .second => (Emission.descent (environment settings registry source)).Nests settings.maxDepth
    (secondVisits settings registry source)

variable {settings registry source}

theorem firstVisits_errors {root v : Visit Layout} (hroot : root ∈ firstVisits settings registry source)
    (h : Relation.ReflTransGen ((Layout.descent registry settings.maxDepth).Calls settings.maxDepth) root v) :
    (Layout.after registry settings.maxDepth v).Extends (Layout.run registry settings.maxDepth (parsed source)).1 := by
  induction h with
  | refl =>
    obtain ⟨k, text, hline, hstate, hdepth⟩ := hroot
    have hx := pass_extends_run settings registry source (k + 1)
    rw [pass_take_succ hline] at hx
    rw [Layout.after, hstate, hdepth]
    exact hx
  | tail _ hcalls ih => exact (Layout.after_extends hcalls).trans ih

theorem secondVisits_errors {root v : Visit (Emission × Plan)} (hroot : root ∈ secondVisits settings registry source)
    (h : Relation.ReflTransGen ((Emission.descent (environment settings registry source)).Calls settings.maxDepth)
      root v) :
    (Emission.after (environment settings registry source) v).errors.toList <+:
      (Emission.run (environment settings registry source) (planned settings registry source)).1.errors.toList := by
  induction h with
  | refl =>
    obtain ⟨k, text, plan, hline, hstate, hdepth⟩ := hroot
    have hx := (Emission.steps_grows (environment settings registry source)).run
      ((planned settings registry source).take (k + 1)) ((planned settings registry source).drop (k + 1))
    rw [List.take_append_drop, take_succ_of_getElem? hline, Emission.run_concat] at hx
    rw [Emission.after, hstate, hdepth]
    exact hx
  | tail _ hcalls ih => exact (Emission.after_grows hcalls).trans ih

/-- A chain beyond the limit is an error, or its line has failed in the first pass. -/
theorem Nests.fails {pass : Pass} {length n : Nat} (h : Nests settings registry source pass length n)
    (hdeep : settings.maxDepth < length) :
    ∃ e ∈ (run settings registry source).errors,
      e.line = n ∧ (e.kind = .macroExpansion ∨ pass = .second ∧ e.pass = .first) := by
  rw [run_errors]
  cases pass with
  | first =>
    obtain ⟨root, hroot, v, hchain, htext, rfl, rfl⟩ := h
    obtain ⟨⟨name, text⟩, htext⟩ := Option.ne_none_iff_exists'.1 htext
    have herror := Layout.after_tooDeep htext (Nat.le_of_lt_succ hdeep)
    have hmem := (firstVisits_errors hroot hchain).errors.subset (Array.mem_toList_iff.2 herror)
    exact ⟨_, List.mem_append_left _ hmem, rfl, .inl rfl⟩
  | second =>
    obtain ⟨root, hroot, v, hchain, htext, rfl, rfl⟩ := h
    obtain ⟨⟨name, text⟩, htext⟩ := Option.ne_none_iff_exists'.1 htext
    by_cases hfailed : v.line.number ∈ (environment settings registry source).failed
    · simp only [environment, mem_eraseReps, List.mem_map] at hfailed
      obtain ⟨e, he, hline⟩ := hfailed
      exact ⟨e, List.mem_append_left _ he, hline, .inr ⟨rfl, firstErrors_pass he⟩⟩
    · have herror := Emission.after_tooDeep htext (Nat.le_of_lt_succ hdeep) hfailed
      have hmem := (secondVisits_errors hroot hchain).subset herror
      exact ⟨_, List.mem_append_right _ hmem, rfl, .inl rfl⟩

end Source

/-- Lines that are accepted under one limit are accepted under a higher one, with the same output. -/
theorem Clean.raise {registry : Macro.Registry} {limit limit' : Nat} {ls : List Emission.SourceLine}
    (h : Clean registry limit ls) (hlimit : limit ≤ limit') :
    Clean registry limit' ls ∧ written registry limit' ls = written registry limit ls := by
  have hls : List.Forall₂ (Emission.SourceLine.Matches .empty (· = ·) (· = ·)) ls ls :=
    List.forall₂_same.2 fun x _ => ⟨rfl, Line.readsRelated_self .refl x.2⟩
  obtain ⟨hclean, hout⟩ := h.alike_from_start registry.alike_self hlimit hls
  exact ⟨hclean, hout.eq.symm⟩

theorem assemble_eq_error {a : Assembler} {source : String} (h : (run a.settings a.registry source).errors ≠ []) :
    (a.assemble source).1 = .error (byLine (run a.settings a.registry source).errors) := by
  rw [assemble_fst, Result.toExcept, List.isEmpty_eq_false_iff.2 h]
  rfl

end Assembly

open Assembly in
/-- Both passes come to finitely many lines. A chain of source texts beyond the limit makes the assembly fail with
an error of a macro on its line, or, for a chain of the second pass, with an error that the first pass has reported on
that line, after which the second reports none there. A success stays the same under every higher limit. -/
theorem depth_limit_only_rejects (a : Assembler) (source : String) :
    CallsEnd (firstVisits a.settings a.registry source)
        ((Layout.descent a.registry a.settings.maxDepth).Calls a.settings.maxDepth) ∧
      CallsEnd (secondVisits a.settings a.registry source)
        ((Emission.descent (environment a.settings a.registry source)).Calls a.settings.maxDepth) ∧
      (∀ pass length n, Nests a.settings a.registry source pass length n → a.settings.maxDepth < length →
        ∃ errors, (a.assemble source).1 = .error errors ∧ ∃ e ∈ errors, e.line = n ∧
          (e.kind = .macroExpansion ∨
            pass = .second ∧ e.pass = .first ∧ ∀ e' ∈ errors, e'.line = n → e'.pass ≠ .second)) ∧
      ∀ out, (a.assemble source).1 = .ok out → ∀ limit ≥ a.settings.maxDepth,
        ({ a with settings := { a.settings with maxDepth := limit } }.assemble source).1 = .ok out := by
  refine ⟨Descent.callsEnd (finite_firstVisits _ _ _), Descent.callsEnd (finite_secondVisits _ _ _), ?_, ?_⟩
  · intro pass length n hnests hdeep
    obtain ⟨e, he, rfl, hcause⟩ := hnests.fails hdeep
    have hfails := List.ne_nil_of_mem he
    have hmem := (byLine_perm _).mem_iff.2 he
    refine ⟨_, assemble_eq_error hfails, e, hmem, rfl, ?_⟩
    rcases hcause with hkind | ⟨hpass, hfirst⟩
    · exact .inl hkind
    · exact .inr ⟨hpass, hfirst, fun e' he' hline hsecond =>
        (batched_byLine hfails).apart e e' hmem he' hfirst hsecond hline.symm⟩
  · intro out hok limit hlimit
    obtain ⟨hclean, rfl⟩ := assemble_eq_ok.1 hok
    exact assemble_eq_ok.2 (hclean.raise hlimit)

open Assembly in
/-- A macro that calls itself, and one that does not, under limits of one and three. -/
theorem depth_limit_only_rejects_loop :
    let a : Assembler :=
      { settings := { maxDepth := 1 }
        registry := ⟨[("loop", fun _ _ _ => .ok (.source "@loop")), ("pair", fun _ _ _ => .ok (.source "NOP\nNOP"))]⟩ }
    (∃ errors, (a.assemble "@loop").1 = .error errors ∧ ∃ e ∈ errors, e.line = 1 ∧ e.kind = .macroExpansion) ∧
    ∃ out, (a.assemble "@pair").1 = .ok out ∧
      ({ a with settings := { a.settings with maxDepth := 3 } }.assemble "@pair").1 = .ok out := by
  intro a
  let l : Line := ⟨1, none, some (.invocation "loop" ""), 0⟩
  have hread : Line.read "@loop".toList 1 = .ok l := by decide +kernel
  have hnests : Nests a.settings a.registry "@loop" .first 2 1 := by
    refine ⟨⟨.start, 0, l⟩, ⟨0, "@loop".toList, by decide +kernel, rfl, rfl⟩, ⟨_, 1, l⟩,
      .single ⟨rfl, Nat.zero_lt_one, "loop", "@loop", 0, "@loop".toList, rfl, by decide +kernel, hread, rfl⟩,
      ?_, rfl, rfl⟩
    exact nofun
  have hok : (a.assemble "@pair").1 = .ok (run a.settings a.registry "@pair").output :=
    (assemble_fst "@pair" a).trans (toExcept_eq_ok (by decide +kernel))
  obtain ⟨-, -, hdeep, -⟩ := depth_limit_only_rejects a "@loop"
  obtain ⟨-, -, -, hsame⟩ := depth_limit_only_rejects a "@pair"
  obtain ⟨errors, hfails, e, he, hline, hkind | ⟨hpass, -⟩⟩ := hdeep .first 2 1 hnests (by decide)
  · exact ⟨⟨errors, hfails, e, he, hline, hkind⟩, _, hok, hsame _ hok 3 (by decide)⟩
  · cases hpass

open Assembly in
/-- The second pass nests too deep on a line that has failed in the first, and there is no error of a macro. -/
theorem deep_chain_withheld :
    let deep : Macro.Handler := fun _ _ pass => .ok (.source (if pass = .first then "ORG nowhere" else "@deep"))
    let a : Assembler := { settings := { maxDepth := 1 }, registry := ⟨[("deep", deep)]⟩ }
    Nests a.settings a.registry "@deep" .second 2 1 ∧ a.settings.maxDepth < 2 ∧
      ∃ errors, (a.assemble "@deep").1 = .error errors ∧ ∀ e ∈ errors, e.kind ≠ .macroExpansion := by
  intro deep a
  let l : Line := ⟨1, none, some (.invocation "deep" ""), 0⟩
  have hread : Line.read "@deep".toList 1 = .ok l := by decide +kernel
  have hline : (readSource "@deep")[0]? = some ("@deep".toList, .ok l) := by decide +kernel
  obtain ⟨plan, hplan⟩ : ∃ plan, (planned a.settings a.registry "@deep")[0]? = some (("@deep".toList, .ok l), plan) :=
    ⟨_, planned_getElem? hline⟩
  refine ⟨?_, by decide, ?_⟩
  · refine ⟨⟨(.start, plan), 0, l⟩, ⟨0, "@deep".toList, plan, hplan, rfl, rfl⟩, ⟨_, 1, l⟩,
      .single ⟨rfl, Nat.zero_lt_one, "deep", "@deep", 0, "@deep".toList, rfl, by decide +kernel, hread, rfl⟩,
      ?_, rfl, rfl⟩
    exact nofun
  · have hkinds : (run a.settings a.registry "@deep").errors.map (·.kind) = [.undefinedSymbol] := by decide +kernel
    refine ⟨_, assemble_eq_error (fun hnil => by simp [hnil] at hkinds), fun e he => ?_⟩
    have hkind := List.mem_map_of_mem (f := (·.kind)) ((byLine_perm _).mem_iff.1 he)
    rw [hkinds, List.mem_singleton] at hkind
    rw [hkind]
    nofun

end Mos6502
