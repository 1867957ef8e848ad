import Mathlib.Data.List.Pairwise
import Mathlib.Order.Lattice
namespace PriorityCeiling
variable {P Res : Type} [LinearOrder P]

-- A preempting context and the resources whose locks it is inside, innermost first.
structure Context (P Res : Type) where
  priority : P
  held : List Res

-- The stack resource policy: a context enters above every running context and
-- above the ceiling of every resource they hold.
def Admits (ceiling : Res → P) (stack : List (Context P Res)) (priority : P) : Prop :=
  ∀ c ∈ stack, c.priority < priority ∧ ∀ r ∈ c.held, ceiling r < priority

inductive Step (ceiling : Res → P) : List (Context P Res) → List (Context P Res) → Prop where
  | enter {stack : List (Context P Res)} {priority : P} (admitted : Admits ceiling stack priority) :
      Step ceiling stack (⟨priority,[]⟩::stack)
  | leave {stack : List (Context P Res)} {c : Context P Res} : Step ceiling (c::stack) stack
  | lock {stack : List (Context P Res)} {priority : P} {held : List Res} {r : Res}
      (covered : priority ≤ ceiling r) :
      Step ceiling (⟨priority,held⟩::stack) (⟨priority,r::held⟩::stack)
  | unlock {stack : List (Context P Res)} {priority : P} {held : List Res} {r : Res} :
      Step ceiling (⟨priority,r::held⟩::stack) (⟨priority,held⟩::stack)

structure Sound (ceiling : Res → P) (stack : List (Context P Res)) : Prop where
  above : stack.Pairwise fun c below => c.priority > below.priority ∧ ∀ r ∈ below.held, ceiling r < c.priority
  covered : ∀ c ∈ stack, ∀ r ∈ c.held, c.priority ≤ ceiling r

variable {ceiling : Res → P} {stack next : List (Context P Res)}

theorem Step.sound (step : Step ceiling stack next) (sound : Sound ceiling stack) : Sound ceiling next := by
  obtain ⟨above,covered⟩ := sound
  cases step with
  | enter admitted =>
    refine ⟨List.pairwise_cons.mpr ⟨admitted,above⟩,?_⟩
    intro c member r held
    rcases List.mem_cons.mp member with rfl | member
    · cases held
    · exact covered c member r held
  | leave =>
    exact ⟨(List.pairwise_cons.mp above).2,fun c member => covered c (List.mem_cons_of_mem _ member)⟩
  | lock fits =>
    refine ⟨List.pairwise_cons.mpr (List.pairwise_cons.mp above),?_⟩
    intro c member q held
    rcases List.mem_cons.mp member with rfl | member
    · rcases List.mem_cons.mp held with rfl | held
      · exact fits
      · exact covered _ List.mem_cons_self q held
    · exact covered c (List.mem_cons_of_mem _ member) q held
  | unlock =>
    refine ⟨List.pairwise_cons.mpr (List.pairwise_cons.mp above),?_⟩
    intro c member q held
    rcases List.mem_cons.mp member with rfl | member
    · exact covered _ List.mem_cons_self q (List.mem_cons_of_mem _ held)
    · exact covered c (List.mem_cons_of_mem _ member) q held

-- Two contexts of a sound stack never hold one resource at the same time.
theorem Sound.exclusive (sound : Sound ceiling stack) :
    stack.Pairwise fun c below => ∀ r, r ∈ c.held → r ∉ below.held := by
  refine List.Pairwise.imp_of_mem ?_ sound.above
  intro c below member _ above r held shared
  have low := above.2 r shared
  exact absurd (sound.covered c member r held) (not_le_of_gt low)

end PriorityCeiling
