import Mathlib.Logic.Relation
import Mathlib.Data.List.Chain
import Mathlib.Data.List.TakeWhile

/-!
# Depth-first search for a cycle

`visit` walks from one node, keeps the path that led to it, and marks the nodes from which it came
back without a cycle. A node of the path met again closes a cycle. `visit_spec` says that what is
returned is a cycle, and that nothing is returned when none is reachable.
-/

namespace TokenProxy.Lib

open Relation

universe u

/-- Nodes, and the successors of each in the order in which they are tried. -/
structure Graph (α : Type u) where
  nodes : List α
  next : α → List α

namespace Graph

variable {α : Type u} (g : Graph α)

/-- Only nodes are left again: a successor that is no node is a dead end. -/
def Edge (a b : α) : Prop := a ∈ g.nodes ∧ b ∈ g.next a

/-- `first, …, first`, each node a successor of the one before. -/
def IsCycle (cycle : List α) : Prop :=
  ∃ first middle, cycle = first :: (middle ++ [first]) ∧ cycle.IsChain g.Edge

def Safe (a : α) : Prop := ∀ b, ReflTransGen g.Edge a b → ¬ TransGen g.Edge b b

/-- Reachable from one of `starts`. -/
def Reached (starts : List α) (a : α) : Prop := ∃ start ∈ starts, ReflTransGen g.Edge start a

def Acyclic : Prop := ∀ a, ¬ TransGen g.Edge a a

variable {g}

theorem Safe.not_cycle {a : α} (h : g.Safe a) : ¬ TransGen g.Edge a a := h a .refl

theorem acyclic_iff : g.Acyclic ↔ ∀ a, g.Safe a :=
  ⟨fun h _ b _ => h b, fun h a => (h a).not_cycle⟩

theorem safe_of_next {a : α} (h : ∀ b ∈ g.next a, g.Safe b) : g.Safe a := by
  have hstep {b : α} (hb : TransGen g.Edge a b) : ∃ c, c ∈ g.next a ∧ ReflTransGen g.Edge c b := by
    obtain ⟨c, hac, hcb⟩ := TransGen.head'_iff.1 hb
    exact ⟨c, hac.2, hcb⟩
  intro b hab hcycle
  rcases reflTransGen_iff_eq_or_transGen.1 hab with rfl | hab
  · obtain ⟨c, hc, hcb⟩ := hstep hcycle
    exact h c hc b hcb hcycle
  · obtain ⟨c, hc, hcb⟩ := hstep hab
    exact h c hc b hcb hcycle

theorem safe_of_notMem {a : α} (h : a ∉ g.nodes) : g.Safe a := by
  have hstop {b : α} (hb : TransGen g.Edge a b) : False := by
    obtain ⟨c, hac, -⟩ := TransGen.head'_iff.1 hb
    exact h hac.1
  intro b hab hcycle
  rcases reflTransGen_iff_eq_or_transGen.1 hab with rfl | hab
  · exact hstop hcycle
  · exact hstop hab

theorem IsCycle.transGen {cycle : List α} (h : g.IsCycle cycle) :
    ∃ a ∈ cycle, TransGen g.Edge a a := by
  obtain ⟨first, middle, rfl, hchain⟩ := h
  refine ⟨first, List.mem_cons_self, ?_⟩
  rw [← List.cons_append, List.isChain_append] at hchain
  obtain ⟨hfront, -, hlast⟩ := hchain
  have hback := hlast ((first :: middle).getLast (by simp)) (by simp [List.getLast?_eq_getLast_of_ne_nil]) first (by simp)
  exact TransGen.tail' (List.relationReflTransGen_of_exists_isChain_cons middle hfront rfl) hback

theorem Safe.mono {g g' : Graph α} (hedge : ∀ a b, g'.Edge a b → g.Edge a b) {a : α}
    (h : g.Safe a) : g'.Safe a :=
  fun b hab hcycle => h b (ReflTransGen.mono hedge _ _ hab) (TransGen.mono hedge _ _ hcycle)

theorem Acyclic.of_safe {g g' : Graph α} (hg : g.Acyclic) {x : α} (hx : g'.Safe x)
    (hedge : ∀ a b, a ≠ x → b ≠ x → g'.Edge a b → g.Edge a b) : g'.Acyclic := by
  intro a hloop
  have hne {b : α} (hb : ReflTransGen g'.Edge b a) : b ≠ x := by
    rintro rfl
    exact hx a hb hloop
  have hold {b : α} (hab : TransGen g'.Edge a b) : ReflTransGen g'.Edge b a → TransGen g.Edge a b := by
    induction hab with
    | single hstep => exact fun hback => .single (hedge _ _ (hne .refl) (hne hback) hstep)
    | tail _ hstep ih =>
      exact fun hback => (ih (hback.head hstep)).tail (hedge _ _ (hne (hback.head hstep)) (hne hback) hstep)
  exact hg a (hold hloop .refl)

/-! ### Paths -/

/-- What a search that began at `starts` has found when it comes back from `names`. -/
structure Searched (g : Graph α) (starts names : List α)
    (found : Option (List α) × List α) : Prop where
  visited : ∀ a ∈ found.2, g.Safe a
  cycle : ∀ cycle, found.1 = some cycle → g.IsCycle cycle ∧ ∀ a ∈ cycle, g.Reached starts a
  safe : found.1 = none → ∀ a ∈ names, g.Safe a

/-- A path that leads from one of `starts` to `name`. -/
structure Leads (g : Graph α) (starts path : List α) (name : α) : Prop where
  chain : (path ++ [name]).IsChain g.Edge
  reachable : ∀ a ∈ path ++ [name], g.Reached starts a

theorem Leads.snoc {starts path : List α} {name next : α} (h : g.Leads starts path name)
    (hstep : g.Edge name next) :
    g.Leads starts (path ++ [name]) next where
  chain := by
    rw [List.isChain_append]
    refine ⟨h.chain, List.isChain_singleton _, ?_⟩
    intro a ha b hb
    simp only [List.getLast?_append, List.getLast?_singleton, Option.some_or, Option.mem_some_iff, List.head?_cons] at ha hb
    rw [← ha, ← hb]
    exact hstep
  reachable := by
    intro a ha
    rcases List.mem_append.1 ha with ha | ha
    · exact h.reachable a ha
    · rw [List.mem_singleton.1 ha]
      obtain ⟨start, hstart, hreach⟩ := h.reachable name (by simp)
      exact ⟨start, hstart, hreach.tail hstep⟩

theorem leads_nil {starts : List α} {name : α} (h : name ∈ starts) : g.Leads starts [] name where
  chain := List.isChain_singleton _
  reachable := by
    intro a ha
    rw [List.nil_append, List.mem_singleton] at ha
    exact ⟨name, h, by rw [ha]⟩

theorem Acyclic.nodup {path : List α} (h : g.Acyclic)
    (hpath : path.IsChain g.Edge) : path.Nodup := by
  have hchain : path.IsChain (TransGen g.Edge) := hpath.imp fun _ _ => TransGen.single
  have hpairs : path.Pairwise (TransGen g.Edge) := hchain.pairwise
  apply hpairs.imp
  rintro a b hab rfl
  exact h a hab

theorem mem_nodes {path : List α} (h : path.IsChain g.Edge) {a : α}
    (ha : a ∈ path.dropLast) : a ∈ g.nodes := by
  induction path with
  | nil => cases ha
  | cons first path ih =>
    cases path with
    | nil => cases ha
    | cons second path =>
      rw [List.isChain_cons_cons] at h
      rw [List.dropLast_cons_cons, List.mem_cons] at ha
      rcases ha with rfl | ha
      · exact h.1.1
      · exact ih h.2 ha

variable [DecidableEq α]

/-! ### The search -/

def unseen (g : Graph α) (path : List α) : ℕ := g.nodes.countP fun a => !path.contains a

theorem unseen_snoc_lt {path : List α} {a : α} (ha : g.nodes.contains a = true)
    (hpath : path.contains a = false) :
    g.unseen (path ++ [a]) < g.unseen path := by
  rw [List.contains_iff_mem] at ha
  obtain ⟨before, after, hsplit⟩ := List.append_of_mem ha
  have hle (l : List α) : l.countP (fun b => !(path ++ [a]).contains b) ≤ l.countP fun b => !path.contains b := by
    apply List.countP_mono_left
    intro b _ hb
    simp only [Bool.not_eq_true', List.contains_eq_mem, List.mem_append, decide_eq_false_iff_not, not_or] at hb ⊢
    exact hb.1
  have hfresh : (!path.contains a) = true := by rw [hpath, Bool.not_false]
  rw [unseen, unseen, hsplit, List.countP_append, List.countP_append, List.countP_cons_of_neg (by simp),
    @List.countP_cons_of_pos _ (fun b => !path.contains b) a after hfresh]
  have hbefore := hle before
  have hafter := hle after
  omega

mutual

/-- The cycle that is met, if there is one, and the nodes that are done with. -/
def visit (g : Graph α) (path visited : List α) (name : α) : Option (List α) × List α :=
  if _ : path.contains name then (some (path.dropWhile (· ≠ name) ++ [name]), visited)
  else if visited.contains name then (none, visited)
  else if _ : g.nodes.contains name then
    match visitAll g (path ++ [name]) visited (g.next name) with
    | (some cycle, visited) => (some cycle, visited)
    | (none, visited) => (none, visited ++ [name])
  else (none, visited)
termination_by (g.unseen path, 0)
decreasing_by
  exact Prod.Lex.left _ _ (unseen_snoc_lt ‹_› (by simpa using ‹¬ path.contains name = true›))

def visitAll (g : Graph α) (path visited : List α) : List α → Option (List α) × List α
  | [] => (none, visited)
  | name :: names =>
    match visit g path visited name with
    | (some cycle, visited) => (some cycle, visited)
    | (none, visited) => visitAll g path visited names
termination_by names => (g.unseen path, names.length + 1)

end

theorem Leads.isCycle {starts path : List α} {name : α} (h : g.Leads starts path name)
    (hmem : name ∈ path) :
    g.IsCycle (path.dropWhile (· ≠ name) ++ [name]) ∧
      ∀ a ∈ path.dropWhile (· ≠ name) ++ [name], g.Reached starts a := by
  have hsuffix : path.dropWhile (· ≠ name) ++ [name] <:+ path ++ [name] := by
    refine ⟨path.takeWhile (· ≠ name), ?_⟩
    rw [← List.append_assoc, List.takeWhile_append_dropWhile]
  have hfirst : ∃ rest, path.dropWhile (· ≠ name) = name :: rest := by
    cases hdrop : path.dropWhile (· ≠ name) with
    | nil => simpa using List.dropWhile_eq_nil_iff.1 hdrop name hmem
    | cons first rest =>
      have hhead := List.head_dropWhile_not (fun a => decide (a ≠ name)) (l := path) (by rw [hdrop]; simp)
      simp only [hdrop, List.head_cons, decide_eq_false_iff_not, not_not] at hhead
      exact ⟨rest, by rw [hhead]⟩
  obtain ⟨rest, hrest⟩ := hfirst
  refine ⟨⟨name, rest, by rw [hrest, List.cons_append], h.chain.suffix hsuffix⟩, ?_⟩
  intro a ha
  exact h.reachable a (hsuffix.subset ha)

/-- **What the search finds.** -/
theorem searched (g : Graph α) :
    (∀ path visited name starts, g.Leads starts path name → (∀ a ∈ visited, g.Safe a) →
      g.Searched starts [name] (g.visit path visited name)) ∧
    ∀ path visited names starts, (∀ name ∈ names, g.Leads starts path name) → (∀ a ∈ visited, g.Safe a) →
      g.Searched starts names (g.visitAll path visited names) := by
  apply visit.mutual_induct g
    (fun path visited name => ∀ starts, g.Leads starts path name → (∀ a ∈ visited, g.Safe a) →
      g.Searched starts [name] (g.visit path visited name))
    (fun path visited names => ∀ starts, (∀ name ∈ names, g.Leads starts path name) → (∀ a ∈ visited, g.Safe a) →
      g.Searched starts names (g.visitAll path visited names))
  case case1 =>
    intro path visited name hpath starts hleads hvisited
    rw [visit, dif_pos hpath]
    refine ⟨hvisited, ?_, by simp⟩
    intro cycle hcycle
    rw [← Option.some.inj hcycle]
    exact hleads.isCycle (List.contains_iff_mem.1 hpath)
  case case2 =>
    intro path visited name hpath hmem starts hleads hvisited
    rw [visit, dif_neg hpath, if_pos hmem]
    refine ⟨hvisited, by simp, ?_⟩
    intro _ a ha
    rw [List.mem_singleton.1 ha]
    exact hvisited name (List.contains_iff_mem.1 hmem)
  case case3 =>
    intro path visited name hpath hmem hname cycle visited' hall ih starts hleads hvisited
    have hnext : ∀ next ∈ g.next name, g.Leads starts (path ++ [name]) next := fun next hnext =>
      hleads.snoc ⟨List.contains_iff_mem.1 hname, hnext⟩
    have hfound := ih starts hnext hvisited
    rw [hall] at hfound
    rw [visit, dif_neg hpath, if_neg hmem, dif_pos hname, hall]
    exact ⟨hfound.visited, hfound.cycle, by simp⟩
  case case4 =>
    intro path visited name hpath hmem hname visited' hall ih starts hleads hvisited
    have hnext : ∀ next ∈ g.next name, g.Leads starts (path ++ [name]) next := fun next hnext =>
      hleads.snoc ⟨List.contains_iff_mem.1 hname, hnext⟩
    have hfound := ih starts hnext hvisited
    rw [hall] at hfound
    have hsafe : g.Safe name := safe_of_next (hfound.safe rfl)
    rw [visit, dif_neg hpath, if_neg hmem, dif_pos hname, hall]
    refine ⟨?_, by simp, by simpa using hsafe⟩
    intro a ha
    rcases List.mem_append.1 ha with ha | ha
    · exact hfound.visited a ha
    · rw [List.mem_singleton.1 ha]
      exact hsafe
  case case5 =>
    intro path visited name hpath hmem hname starts hleads hvisited
    have hsafe : g.Safe name := safe_of_notMem fun h => hname (List.contains_iff_mem.2 h)
    rw [visit, dif_neg hpath, if_neg hmem, dif_neg hname]
    exact ⟨hvisited, by simp, by simpa using hsafe⟩
  case case6 =>
    intro path visited starts _ hvisited
    rw [visitAll]
    exact ⟨hvisited, by simp, by simp⟩
  case case7 =>
    intro path visited name names cycle visited' hfirst ih starts hleads hvisited
    have hfound := ih starts (hleads name List.mem_cons_self) hvisited
    rw [hfirst] at hfound
    rw [visitAll, hfirst]
    exact ⟨hfound.visited, hfound.cycle, by simp⟩
  case case8 =>
    intro path visited name names visited' hfirst ih ihrest starts hleads hvisited
    have hfound := ih starts (hleads name List.mem_cons_self) hvisited
    rw [hfirst] at hfound
    have hothers := ihrest starts (fun other hother => hleads other (List.mem_cons_of_mem _ hother)) hfound.visited
    rw [visitAll, hfirst]
    refine ⟨hothers.visited, hothers.cycle, ?_⟩
    intro hnone a ha
    rcases List.mem_cons.1 ha with rfl | ha
    · exact hfound.safe rfl a (by simp)
    · exact hothers.safe hnone a ha

/-- **The search is exact** from one node. -/
theorem searched_visit (g : Graph α) (name : α) : g.Searched [name] [name] (g.visit [] [] name) :=
  (searched g).1 [] [] name [name] (leads_nil (List.mem_singleton.2 rfl)) (by simp)

/-- **The search is exact** from all of them. -/
theorem searched_visitAll (g : Graph α) (names : List α) :
    g.Searched names names (g.visitAll [] [] names) :=
  (searched g).2 [] [] names names (fun _ => leads_nil) (by simp)

theorem visit_eq_none_iff (g : Graph α) (name : α) :
    (g.visit [] [] name).1 = none ↔ g.Safe name := by
  have hspec := searched_visit g name
  refine ⟨fun h => hspec.safe h name (List.mem_singleton.2 rfl), fun hsafe => ?_⟩
  by_contra hsome
  obtain ⟨cycle, hcycle⟩ := Option.ne_none_iff_exists'.1 hsome
  obtain ⟨hreal, hreached⟩ := hspec.cycle cycle hcycle
  obtain ⟨a, ha, hloop⟩ := hreal.transGen
  obtain ⟨start, hstart, hreach⟩ := hreached a ha
  rw [List.mem_singleton.1 hstart] at hreach
  exact hsafe a hreach hloop

theorem visitAll_eq_none_iff (g : Graph α) (names : List α) :
    (g.visitAll [] [] names).1 = none ↔ ∀ name ∈ names, g.Safe name := by
  have hspec := searched_visitAll g names
  refine ⟨hspec.safe, fun hsafe => ?_⟩
  by_contra hsome
  obtain ⟨cycle, hcycle⟩ := Option.ne_none_iff_exists'.1 hsome
  obtain ⟨hreal, hreached⟩ := hspec.cycle cycle hcycle
  obtain ⟨a, ha, hloop⟩ := hreal.transGen
  obtain ⟨start, hstart, hreach⟩ := hreached a ha
  exact hsafe start hstart a hreach hloop

end Graph

end TokenProxy.Lib
