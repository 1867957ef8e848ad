import Rtic.Syntax.Ast
namespace Rtic.Syntax.Check
open Ordered

def undeclaredShared (app : App) (entry : Option Nat × Ident × Access) : Option Error :=
  if (get? app.sharedResources entry.2.1).isNone then
    some ⟨entry.2.1,"this shared resource has NOT been declared"⟩
  else none

def undeclaredLocal (app : App) (name : Ident) : Option Error :=
  if (get? app.localResources name).isNone then
    some ⟨name,"this local resource has NOT been declared"⟩
  else none

def exclusiveAccesses (app : App) : List Ident :=
  app.sharedResourceAccesses.filterMap fun entry =>
    if entry.1.isSome && entry.2.2.isExclusive then some entry.2.1 else none

def bothAccesses (app : App) (entry : Option Nat × Ident × Access) : Option Error :=
  if entry.2.2.isShared && (exclusiveAccesses app).contains entry.2.1 then
    some ⟨entry.2.1,"this implementation doesn't support shared (`&-`) - exclusive (`&mut-`) locks; use `x` instead of `&x`"⟩
  else none

def boundDispatcher (app : App) (task : Ident × HardwareTask) : Option Error :=
  if app.dispatchers.contains task.2.binds then
    some ⟨task.2.binds,"dispatcher interrupts can't be used as hardware tasks"⟩
  else none

-- The first error, in the order of the source's loops.
def app (app : App) : Except Error Unit :=
  match app.sharedResourceAccesses.findSome? (undeclaredShared app) with
  | some error => .error error
  | none => match app.localResourceAccesses.findSome? (undeclaredLocal app) with
    | some error => .error error
    | none => match app.sharedResourceAccesses.findSome? (bothAccesses app) with
      | some error => .error error
      | none => match app.hardwareTasks.findSome? (boundDispatcher app) with
        | some error => .error error
        | none => .ok ()

theorem app_parts {application : App} (accepted : app application = .ok ()) :
    (∀ entry ∈ application.sharedResourceAccesses, undeclaredShared application entry = none) ∧
    (∀ name ∈ application.localResourceAccesses, undeclaredLocal application name = none) ∧
    (∀ entry ∈ application.sharedResourceAccesses, bothAccesses application entry = none) ∧
    ∀ task ∈ application.hardwareTasks, boundDispatcher application task = none := by
  unfold app at accepted
  split at accepted
  · cases accepted
  · rename_i shared
    split at accepted
    · cases accepted
    · rename_i locals
      split at accepted
      · cases accepted
      · rename_i both
        split at accepted
        · cases accepted
        · rename_i bound
          simp only [List.findSome?_eq_none_iff] at shared locals both bound
          exact ⟨shared,locals,both,bound⟩

theorem declared_shared {application : App} (accepted : app application = .ok ())
    {priority : Option Nat} {name : Ident} {access : Access}
    (listed : (priority,name,access) ∈ application.sharedResourceAccesses) :
    ∃ resource, get? application.sharedResources name = some resource := by
  have checked := (app_parts accepted).1 _ listed
  unfold undeclaredShared at checked
  split at checked
  · cases checked
  · rename_i present
    exact Option.ne_none_iff_exists'.mp (by simpa using present)

end Rtic.Syntax.Check
