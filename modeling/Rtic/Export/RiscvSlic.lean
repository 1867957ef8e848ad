import Rtic.Codegen.Program
namespace Rtic.Export.RiscvSlic
open Syntax Codegen

-- The features riscv-clint and riscv-mecall.
inductive Source where
  | clint
  | mecall
  deriving DecidableEq, Repr

-- BackendArgs: clint takes the identifier of a hart, mecall takes nothing.
abbrev BackendArgs := Ident

def dispatcherIdent (i : Nat) : Ident := "__RTICDispatcher"++toString i

-- The dispatchers are made here, one for each level of the software tasks above 0.
def preInitPreprocessing (app : App) : Except Error App :=
  if app.dispatchers ≠ [] then
    .error ⟨"app","this backend does not support explicit interrupt dispatchers; remove the `dispatchers` argument from `#[app]`"⟩
  else .ok {app with dispatchers := (List.range (nonzeroPriorities app).length).map dispatcherIdent}

def architectureSpecificAnalysis (source : Source) (backend : Option BackendArgs) (app : App) : Except Error Unit :=
  match enoughDispatchers app with
  | .error error => .error error
  | .ok () =>
    if source = .clint ∧ backend.isNone then .error ⟨"app","CLINT requires backend-specific configuration"⟩ else .ok ()

-- The calls of set_priority in the start-up code.
def preInitEnableInterrupts (app : App) (interrupts : List (Nat × Ident)) : List (Ident × Nat) :=
  (interrupts++app.hardwareTasks.map fun task => (task.2.priority,task.2.binds)).map fun entry => (entry.2,entry.1)

-- The arguments of riscv_slic::codegen!.
structure Codegen where
  swi : List Ident
  hartId : Option Ident
  deriving DecidableEq, Repr

-- none is the panic of `unwrap`
def extraModules (source : Source) (backend : Option BackendArgs) (app : App) : Option Codegen :=
  let swi := (app.hardwareTasks.map fun task => task.2.binds)++app.dispatchers
  match source with
  | .clint => backend.map fun hartId => ⟨swi,some hartId⟩
  | .mecall => some ⟨swi,none⟩

theorem preprocessed {app app' : App} (prepared : preInitPreprocessing app = .ok app') :
    app' = {app with dispatchers := (List.range (nonzeroPriorities app).length).map dispatcherIdent} := by
  unfold preInitPreprocessing at prepared
  split at prepared
  · cases prepared
  · cases prepared
    rfl

theorem supported_parts {source : Source} {backend : Option BackendArgs} {app : App}
    (supported : architectureSpecificAnalysis source backend app = .ok ()) :
    enoughDispatchers app = .ok () ∧ (source = .clint → ∃ hartId, backend = some hartId) := by
  unfold architectureSpecificAnalysis at supported
  split at supported
  · cases supported
  · rename_i enough
    split at supported
    · cases supported
    · rename_i configured
      refine ⟨enough,fun clint => ?_⟩
      cases given : backend with
      | none => exact absurd ⟨clint,by rw [given]; rfl⟩ configured
      | some hartId => exact ⟨hartId,rfl⟩

end Rtic.Export.RiscvSlic
