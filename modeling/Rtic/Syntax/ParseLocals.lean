import Rtic.Syntax.ParseUtil
namespace Rtic.Syntax.Syn
open TokenParser

structure Local where
  attrs : List Attribute
  cfgs : List Attribute
  ty : Type_
  expr : Expr
  deriving Repr

inductive TaskLocal where
  | external
  | declared (local_ : Local)
  deriving Repr

abbrev LocalResources := Map TaskLocal

def errorMsgNoLocalResources : String :=
  "malformed, expected 'local = [EXPRPATH: TYPE = EXPR]', or 'local = [EXPRPATH, ...]'"

def Type_.supported : Type_ → Bool
  | .array _ => true
  | .path .. => true
  | .ptr _ => true
  | .tuple _ => true
  | _ => false

def trailingComma : ParseStream Unit := do
  if ← peekPunct ',' then
    let _ ← punct ','
    return ()
  else return ()

section
variable (syn : Parsers)

-- What comes after the colon.
def declared (name : Ident) (cfgs attrs : List Attribute) : ParseStream TaskLocal := do
  let ty ← syn.type_
  if ← peekPunct '=' then
    let _ ← punct '='
    let expr ← syn.expr
    trailingComma
    if ty.supported then return .declared ⟨attrs,cfgs,ty,expr⟩
    else throw ⟨.type_ ty,"unsupported type, must be an array, tuple, pointer or type path"⟩
  else throw ⟨.ident name,"malformed, expected 'IDENT: TYPE = EXPR'"⟩

def taskLocal (name : Ident) (cfgs attrs : List Attribute) : ParseStream TaskLocal := do
  if ← peekPunct ':' then
    let _ ← punct ':'
    declared syn name cfgs attrs
  else if ← peekPunct '=' then
    throw ⟨.ident name,"malformed, expected a type"⟩
  else if ← peekPunct ',' then
    if attrs.isEmpty then
      let _ ← punct ','
      return .external
    else throw ⟨.ident name,"attributes are not supported here"⟩
  else if ← isEmpty then return .external
  else throw ⟨.ident name,errorMsgNoLocalResources⟩

-- One pass of the loop.
def localResource (resources : LocalResources) : ParseStream LocalResources := do
  let exprpath ← syn.exprPath
  let name ← extractResourceNameIdent exprpath.path
  let ⟨cfgs,_,attrs⟩ := filterAttributes exprpath.attrs
  let local_ ← taskLocal syn name cfgs attrs
  if Ordered.containsKey resources name then throw ⟨.ident name,"resource appears more than once in list"⟩
  else return Ordered.insert resources name local_

end

-- A comma is taken where there is one.
inductive Followed : List Token → Bool → List Token → Prop where
  | comma : Followed (.punct ',' joint::rest) true rest
  | bare (other : rest.head?.any (isPunct ',') = false) : Followed rest false rest

section
variable {syn : Parsers} {name : Ident} {cfgs attrs : List Attribute} {resources next : LocalResources} {ts rest : List Token}
  {local_ : TaskLocal}

theorem trailingComma_ok : trailingComma ts = .ok ((),rest) ↔ ∃ comma, Followed ts comma rest := by
  unfold trailingComma peekPunct
  rw [ifPeek_ok,punct_bind_ok]
  refine ⟨?_,?_⟩
  · rintro (⟨_,joint,middle,rfl,result⟩ | ⟨other,result⟩)
    · cases (pure_ok.mp result).2
      exact ⟨true,.comma⟩
    · cases (pure_ok.mp result).2
      exact ⟨false,.bare other⟩
  · rintro ⟨_,_ | other⟩
    · rename_i joint
      exact .inl ⟨headed_iff.mpr ⟨joint,rest,rfl⟩,joint,rest,rfl,rfl⟩
    · exact .inr ⟨other,rfl⟩

theorem declared_ok : declared syn name cfgs attrs ts = .ok (local_,rest) ↔
    ∃ ty joint middle expr after comma, syn.type_ ts = .ok (ty,.punct '=' joint::middle) ∧ syn.expr middle = .ok (expr,after) ∧
      Followed after comma rest ∧ ty.supported = true ∧ local_ = .declared ⟨attrs,cfgs,ty,expr⟩ := by
  unfold declared peekPunct
  rw [bind_ok]
  simp only [ifPeek_ok,punct_bind_ok,throw_ok,and_false,or_false]
  refine ⟨?_,?_⟩
  · rintro ⟨ty,t1,ty_,headed,joint,middle,rfl,result⟩
    obtain ⟨expr,after,expr_,result⟩ := bind_ok.mp result
    obtain ⟨_,rest',followed,result⟩ := bind_ok.mp result
    obtain ⟨comma,followed⟩ := trailingComma_ok.mp followed
    split at result
    · rename_i supported
      obtain ⟨rfl,rfl⟩ := pure_ok.mp result
      exact ⟨ty,joint,middle,expr,after,comma,ty_,expr_,followed,supported,rfl⟩
    · cases result
  · rintro ⟨ty,joint,middle,expr,after,comma,ty_,expr_,followed,supported,rfl⟩
    refine ⟨ty,_,ty_,headed_iff.mpr ⟨joint,middle,rfl⟩,joint,middle,rfl,bind_ok.mpr ⟨expr,after,expr_,?_⟩⟩
    refine bind_ok.mpr ⟨(),rest,trailingComma_ok.mpr ⟨comma,followed⟩,?_⟩
    rw [if_pos supported]
    rfl

theorem taskLocal_ok : taskLocal syn name cfgs attrs ts = .ok (local_,rest) ↔
    (∃ joint middle, ts = .punct ':' joint::middle ∧ declared syn name cfgs attrs middle = .ok (local_,rest)) ∨
    (attrs = [] ∧ local_ = .external ∧ ∃ joint, ts = .punct ',' joint::rest) ∨
    (ts = [] ∧ rest = [] ∧ local_ = .external) := by
  unfold taskLocal peekPunct
  simp only [ifPeek_ok,ifEmpty_ok,punct_bind_ok,throw_ok,and_false,false_or,or_false]
  refine ⟨?_,?_⟩
  · rintro (⟨_,result⟩ | ⟨_,_,⟨_,result⟩ | ⟨_,rfl,result⟩⟩)
    · exact .inl result
    · split at result
      · rename_i empty
        obtain ⟨joint,middle,rfl,result⟩ := punct_bind_ok.mp result
        obtain ⟨rfl,rfl⟩ := pure_ok.mp result
        exact .inr (.inl ⟨List.isEmpty_iff.mp empty,rfl,joint,rfl⟩)
      · cases result
    · obtain ⟨rfl,rfl⟩ := pure_ok.mp result
      exact .inr (.inr ⟨rfl,rfl,rfl⟩)
  · rintro (⟨joint,middle,rfl,result⟩ | ⟨rfl,rfl,joint,rfl⟩ | ⟨rfl,rfl,rfl⟩)
    · exact .inl ⟨headed_iff.mpr ⟨joint,middle,rfl⟩,joint,middle,rfl,result⟩
    · exact .inr ⟨rfl,rfl,.inl ⟨rfl,punct_bind_ok.mpr ⟨joint,rest,rfl,rfl⟩⟩⟩
    · exact .inr ⟨rfl,rfl,.inr ⟨rfl,rfl,rfl⟩⟩

theorem Followed.keeps {after : List Token} {comma : Bool} (followed : Followed after comma rest) :
    rest.length ≤ after.length := by
  cases followed with
  | comma => exact Nat.le_succ _
  | bare => exact Nat.le_refl _

theorem taskLocal_keeps : Keeps (taskLocal syn name cfgs attrs) := by
  intro ts local_ rest result
  rcases taskLocal_ok.mp result with ⟨joint,middle,rfl,result⟩ | ⟨_,_,joint,rfl⟩ | ⟨rfl,rfl,_⟩
  · obtain ⟨ty,joint,after,expr,last,comma,ty_,expr_,followed,_,_⟩ := declared_ok.mp result
    have first := syn.type_consumes _ _ _ ty_
    have second := syn.expr_consumes _ _ _ expr_
    have third := followed.keeps
    simp only [List.length_cons] at first ⊢
    omega
  · exact Nat.le_succ _
  · exact Nat.le_refl _

theorem localResource_ok : localResource syn resources ts = .ok (next,rest) ↔
    ∃ attrs name middle local_, syn.exprPath ts = .ok (⟨attrs,Path.ofIdent name⟩,middle) ∧
      taskLocal syn name (filterAttributes attrs).cfgs (filterAttributes attrs).attrs middle = .ok (local_,rest) ∧
      name ∉ resources.map Prod.fst ∧ next = resources++[(name,local_)] := by
  unfold localResource
  rw [bind_ok]
  refine ⟨?_,?_⟩
  · rintro ⟨⟨attrs,path⟩,middle,path_,result⟩
    obtain ⟨name,_,named,result⟩ := bind_ok.mp result
    obtain ⟨found,rfl⟩ := lift_ok.mp named
    cases extractResourceNameIdent_ok.mp found
    obtain ⟨local_,after,taken,result⟩ := bind_ok.mp result
    split at result
    · cases result
    · rename_i absent
      obtain ⟨rfl,rfl⟩ := pure_ok.mp result
      exact ⟨attrs,name,middle,local_,path_,taken,fun member => absent (Ordered.containsKey_iff.mpr member),
        Ordered.insert_absent (eq_false_of_ne_true absent)⟩
  · rintro ⟨attrs,name,middle,local_,path,taken,absent,rfl⟩
    have absent : Ordered.containsKey resources name = false :=
      eq_false_of_ne_true fun present => absent (Ordered.containsKey_iff.mp present)
    refine ⟨_,middle,path,bind_ok.mpr ⟨name,middle,lift_ok.mpr ⟨extractResourceNameIdent_ok.mpr rfl,rfl⟩,?_⟩⟩
    refine bind_ok.mpr ⟨local_,rest,taken,?_⟩
    rw [absent,if_neg Bool.false_ne_true,Ordered.insert_absent absent]
    rfl

theorem localResource_consumes (resources : LocalResources) : Consumes (localResource syn resources) := by
  intro ts next rest result
  obtain ⟨attrs,name,middle,local_,path,taken,_,_⟩ := localResource_ok.mp result
  exact Nat.lt_of_le_of_lt (taskLocal_keeps _ _ _ taken) (syn.exprPath_consumes _ _ _ path)
end

-- The loop has read all of the input where it asks for its span.
def localResources (syn : Parsers) (input : List Token) : Except ParseError LocalResources := do
  let resources ← untilEmpty (localResource syn) localResource_consumes [] input
  if resources.isEmpty then throw ⟨.tokens [],errorMsgNoLocalResources⟩
  else return resources

def parseLocalResources (syn : Parsers) : ParseStream LocalResources := do
  let input ← bracketed
  localResources syn input

-- An entry as it is written, and what it means.
structure Entry where
  attrs : List Attribute
  name : Ident
  value : Option (Type_ × Expr)
  deriving Repr

def Entry.local_ (self : Entry) : TaskLocal :=
  match self.value with
  | none => .external
  | some (ty,expr) => .declared ⟨(filterAttributes self.attrs).attrs,(filterAttributes self.attrs).cfgs,ty,expr⟩

def resourcesOf (entries : List Entry) : LocalResources := entries.map fun entry => (entry.name,entry.local_)

section
variable (syn : Parsers)

-- IDENT, or attrs IDENT: TYPE = EXPR, at the head of the tokens.
inductive Reads : List Token → Entry → List Token → Prop where
  | ident (path : syn.exprPath ts = .ok (⟨attrs,.ofIdent name⟩,rest)) : Reads ts ⟨attrs,name,none⟩ rest
  | value (path : syn.exprPath ts = .ok (⟨attrs,.ofIdent name⟩,.punct ':' colon::ts'))
      (typed : syn.type_ ts' = .ok (ty,.punct '=' eq::ts'')) (valued : syn.expr ts'' = .ok (expr,rest)) :
      Reads ts ⟨attrs,name,some (ty,expr)⟩ rest

def Entry.Fits (self : Entry) : Prop :=
  match self.value with
  | none => self.attrs = []
  | some (ty,_) => ty.supported = true

-- The documented grammar.
inductive Listed : List Token → List Entry → Prop where
  | last (reads : Reads syn ts entry []) (fits : entry.Fits) : Listed ts [entry]
  | trailing (reads : Reads syn ts entry [.punct ',' joint]) (fits : entry.Fits) : Listed ts [entry]
  | comma (reads : Reads syn ts entry (.punct ',' joint::rest)) (fits : entry.Fits) (more : Listed rest entries) :
      Listed ts (entry::entries)

def Documented (ts : List Token) (resources : LocalResources) : Prop :=
  ∃ entries, Listed syn ts entries ∧ (entries.map Entry.name).Nodup ∧ resources = resourcesOf entries

-- An entry that a pass of the loop takes, and whether it took a comma.
inductive Taken : List Token → Entry → Bool → List Token → Prop where
  | value (reads : Reads syn ts ⟨attrs,name,some (ty,expr)⟩ after) (supported : ty.supported = true)
      (followed : Followed after comma rest) : Taken ts ⟨attrs,name,some (ty,expr)⟩ comma rest
  | ident (reads : Reads syn ts ⟨attrs,name,none⟩ (.punct ',' joint::rest)) (pass : (filterAttributes attrs).attrs = []) :
      Taken ts ⟨attrs,name,none⟩ true rest
  | last (reads : Reads syn ts ⟨attrs,name,none⟩ []) : Taken ts ⟨attrs,name,none⟩ false []

inductive Accepted : List Token → List (Entry × Bool) → Prop where
  | none : Accepted [] []
  | entry (taken : Taken syn ts entry comma rest) (more : Accepted rest items) : Accepted ts ((entry,comma)::items)

-- Each entry but the last has its comma, and none without a value has attributes.
def Regular (items : List (Entry × Bool)) : Prop :=
  (∀ item ∈ items.dropLast, item.2 = true) ∧ ∀ item ∈ items, item.1.value = none → item.1.attrs = []
end

section
variable {syn : Parsers} {ts rest rest' : List Token} {entry entry' : Entry} {entries : List Entry} {comma comma' : Bool}
  {items items' : List (Entry × Bool)} {resources next : LocalResources}

theorem localResource_taken : localResource syn resources ts = .ok (next,rest) ↔
    ∃ entry comma, Taken syn ts entry comma rest ∧ entry.name ∉ resources.map Prod.fst ∧
      next = resources++[(entry.name,entry.local_)] := by
  rw [localResource_ok]
  refine ⟨?_,?_⟩
  · rintro ⟨attrs,name,middle,local_,path,taken,absent,rfl⟩
    rcases taskLocal_ok.mp taken with ⟨colon,ts',rfl,result⟩ | ⟨pass,rfl,joint,rfl⟩ | ⟨rfl,rfl,rfl⟩
    · obtain ⟨ty,eq,ts'',expr,after,comma,ty_,expr_,followed,supported,rfl⟩ := declared_ok.mp result
      exact ⟨⟨attrs,name,some (ty,expr)⟩,comma,.value (.value path ty_ expr_) supported followed,absent,rfl⟩
    · exact ⟨⟨attrs,name,none⟩,true,.ident (.ident path) pass,absent,rfl⟩
    · exact ⟨⟨attrs,name,none⟩,false,.last (.ident path),absent,rfl⟩
  · rintro ⟨entry,comma,taken,absent,rfl⟩
    cases taken with
    | value reads supported followed =>
      cases reads with
      | value path ty expr =>
        refine ⟨_,_,_,_,path,taskLocal_ok.mpr (.inl ⟨_,_,rfl,?_⟩),absent,rfl⟩
        exact declared_ok.mpr ⟨_,_,_,_,_,_,ty,expr,followed,supported,rfl⟩
    | ident reads pass =>
      cases reads with
      | ident path => exact ⟨_,_,_,_,path,taskLocal_ok.mpr (.inr (.inl ⟨pass,rfl,_,rfl⟩)),absent,rfl⟩
    | last reads =>
      cases reads with
      | ident path => exact ⟨_,_,_,_,path,taskLocal_ok.mpr (.inr (.inr ⟨rfl,rfl,rfl⟩)),absent,rfl⟩

theorem Reads.nonempty (reads : Reads syn ts entry rest) : ts ≠ [] := by
  rintro rfl
  cases reads with
  | ident path => exact Nat.not_lt_zero _ (syn.exprPath_consumes _ _ _ path)
  | value path => exact Nat.not_lt_zero _ (syn.exprPath_consumes _ _ _ path)

theorem Taken.nonempty (taken : Taken syn ts entry comma rest) : ts ≠ [] := by
  cases taken with
  | value reads => exact reads.nonempty
  | ident reads => exact reads.nonempty
  | last reads => exact reads.nonempty

-- The loop goes on from what is collected, whose names may not be taken again.
theorem passes_iff : Passes (localResource syn) resources ts next ↔ ∃ items, Accepted syn ts items ∧
    (∀ name ∈ items.map (fun item => item.1.name), name ∉ resources.map Prod.fst) ∧
    (items.map fun item => item.1.name).Nodup ∧ next = resources++resourcesOf (items.map Prod.fst) := by
  refine ⟨fun passes => ?_,?_⟩
  · induction passes with
    | done => exact ⟨[],.none,nofun,List.nodup_nil,(List.append_nil _).symm⟩
    | pass some_ first more ih =>
      obtain ⟨entry,comma,taken,absent,rfl⟩ := localResource_taken.mp first
      obtain ⟨items,accepted,apart,distinct,rfl⟩ := ih
      refine ⟨(entry,comma)::items,.entry taken accepted,?_,?_,?_⟩
      · rintro name member present
        rcases List.mem_cons.mp member with rfl | later
        · exact absent present
        · exact apart name later (by simp [present])
      · exact List.nodup_cons.mpr ⟨fun member => apart _ member (by simp),distinct⟩
      · simp [resourcesOf]
  · rintro ⟨items,accepted,apart,distinct,rfl⟩
    induction accepted generalizing resources with
    | none =>
      rw [show resources++resourcesOf (List.map Prod.fst []) = resources from List.append_nil _]
      exact .done
    | @entry ts entry comma rest items taken more ih =>
      rw [List.map_cons,List.nodup_cons] at distinct
      have absent : entry.name ∉ resources.map Prod.fst := apart _ List.mem_cons_self
      have rest_ := @ih (resources++[(entry.name,entry.local_)]) (fun name member present => ?_) distinct.2
      · refine .pass taken.nonempty (localResource_taken.mpr ⟨entry,comma,taken,absent,rfl⟩) ?_
        simpa [resourcesOf] using rest_
      · rw [List.map_append,List.mem_append] at present
        rcases present with before | here
        · exact apart name (List.mem_cons_of_mem _ member) before
        · cases List.mem_singleton.mp here
          exact distinct.1 member

theorem localResources_ok : localResources syn ts = .ok resources ↔ ∃ items, items ≠ [] ∧ Accepted syn ts items ∧
    (items.map fun item => item.1.name).Nodup ∧ resources = resourcesOf (items.map Prod.fst) := by
  unfold localResources
  refine ⟨fun result => ?_,?_⟩
  · cases looped : untilEmpty (localResource syn) localResource_consumes [] ts with
    | error e =>
      rw [looped] at result
      cases result
    | ok last =>
      rw [looped] at result
      obtain ⟨items,accepted,_,distinct,rfl⟩ := passes_iff.mp ((untilEmpty_ok _).mp looped)
      change (if ([]++resourcesOf (items.map Prod.fst)).isEmpty = true then _ else _) = _ at result
      split at result
      · cases result
      · rename_i some_
        cases result
        refine ⟨items,?_,accepted,distinct,rfl⟩
        rintro rfl
        exact some_ rfl
  · rintro ⟨items,some_,accepted,distinct,rfl⟩
    have looped : untilEmpty (localResource syn) localResource_consumes [] ts = .ok (resourcesOf (items.map Prod.fst)) :=
      (untilEmpty_ok _).mpr (passes_iff.mpr ⟨items,accepted,fun _ _ => List.not_mem_nil,distinct,rfl⟩)
    rw [looped]
    cases items with
    | nil => exact absurd rfl some_
    | cons item items => rfl

theorem parseLocalResources_ok : parseLocalResources syn (.group .bracket ts::rest) = .ok (resources,rest) ↔
    localResources syn ts = .ok resources := by
  unfold parseLocalResources
  rw [bind_ok]
  refine ⟨?_,fun result => ⟨ts,rest,rfl,lift_ok.mpr ⟨result,rfl⟩⟩⟩
  rintro ⟨_,_,opened,result⟩
  cases opened
  exact (lift_ok.mp result).1

theorem Followed.unique {after : List Token} (followed : Followed after comma rest) (other : Followed after comma' rest') :
    comma = comma' ∧ rest = rest' := by
  cases followed with
  | comma =>
    cases other with
    | comma => exact ⟨rfl,rfl⟩
    | bare other => cases other
  | bare bare =>
    cases other with
    | comma => cases bare
    | bare => exact ⟨rfl,rfl⟩

theorem Reads.unique {after after' : List Token} (reads : Reads syn ts entry after) (other : Reads syn ts entry' after')
    (kind : entry.value.isSome = entry'.value.isSome) : entry = entry' ∧ after = after' := by
  cases reads with
  | ident path =>
    cases other with
    | ident path' =>
      cases path.symm.trans path'
      exact ⟨rfl,rfl⟩
    | value => cases kind
  | value path typed valued =>
    cases other with
    | ident => cases kind
    | value path' typed' valued' =>
      cases path.symm.trans path'
      cases typed.symm.trans typed'
      cases valued.symm.trans valued'
      exact ⟨rfl,rfl⟩

theorem Taken.reads (taken : Taken syn ts entry comma rest) :
    ∃ after, Reads syn ts entry after ∧ Followed after comma rest := by
  cases taken with
  | value reads _ followed => exact ⟨_,reads,followed⟩
  | ident reads => exact ⟨_,reads,.comma⟩
  | last reads => exact ⟨_,reads,.bare rfl⟩

-- Which of the two kinds it is, the token after the name tells.
theorem Taken.kind (taken : Taken syn ts entry comma rest) : ∃ exprpath middle, syn.exprPath ts = .ok (exprpath,middle) ∧
    entry.value.isSome = middle.head?.any (isPunct ':') := by
  cases taken with
  | value reads =>
    cases reads with
    | value path => exact ⟨_,_,path,rfl⟩
  | ident reads =>
    cases reads with
    | ident path => exact ⟨_,_,path,rfl⟩
  | last reads =>
    cases reads with
    | ident path => exact ⟨_,_,path,rfl⟩

theorem Taken.unique (taken : Taken syn ts entry comma rest) (other : Taken syn ts entry' comma' rest') :
    entry = entry' ∧ comma = comma' ∧ rest = rest' := by
  obtain ⟨_,middle,path,kind⟩ := taken.kind
  obtain ⟨_,_,path',kind'⟩ := other.kind
  cases path.symm.trans path'
  obtain ⟨after,reads,followed⟩ := taken.reads
  obtain ⟨after',reads',followed'⟩ := other.reads
  obtain ⟨rfl,rfl⟩ := reads.unique reads' (kind.trans kind'.symm)
  exact ⟨rfl,followed.unique followed'⟩

theorem Accepted.unique (accepted : Accepted syn ts items) (other : Accepted syn ts items') : items = items' := by
  induction accepted generalizing items' with
  | none =>
    cases other with
    | none => rfl
    | entry taken => exact absurd rfl taken.nonempty
  | entry taken more ih =>
    cases other with
    | none => exact absurd rfl taken.nonempty
    | entry taken' more' =>
      obtain ⟨rfl,rfl,rfl⟩ := taken.unique taken'
      rw [ih more']

theorem Taken.fits (taken : Taken syn ts entry comma rest) (bare : entry.value = none → entry.attrs = []) : entry.Fits := by
  cases taken with
  | value _ supported => exact supported
  | ident => exact bare rfl
  | last => exact bare rfl

theorem Entry.Fits.bare (fits : entry.Fits) : entry.value = none → entry.attrs = [] := by
  intro none_
  unfold Entry.Fits at fits
  rw [none_] at fits
  exact fits

-- What the grammar lists, the loop takes, where the comma is missing only at the end.
theorem Reads.taken {after : List Token} (reads : Reads syn ts entry after) (fits : entry.Fits)
    (followed : Followed after comma rest) (ends : comma = false → rest = []) : Taken syn ts entry comma rest := by
  cases reads with
  | value path typed valued => exact .value (.value path typed valued) fits followed
  | ident path =>
    cases fits
    cases followed with
    | comma => exact .ident (.ident path) rfl
    | bare =>
      cases ends rfl
      exact .last (.ident path)

theorem regular_cons {item : Entry × Bool} (some_ : items ≠ []) :
    Regular (item::items) ↔ item.2 = true ∧ (item.1.value = none → item.1.attrs = []) ∧ Regular items := by
  unfold Regular
  rw [List.dropLast_cons_of_ne_nil some_]
  simp only [List.forall_mem_cons]
  exact ⟨fun ⟨⟨here,rest⟩,bare,others⟩ => ⟨here,bare,rest,others⟩,fun ⟨here,bare,rest,others⟩ => ⟨⟨here,rest⟩,bare,others⟩⟩

theorem listed_iff : Listed syn ts entries ↔ ∃ items, items ≠ [] ∧ Accepted syn ts items ∧ Regular items ∧
    entries = items.map Prod.fst := by
  refine ⟨fun listed => ?_,?_⟩
  · induction listed with
    | @last ts entry reads fits =>
      refine ⟨[(entry,false)],List.cons_ne_nil _ _,.entry (reads.taken fits (.bare rfl) fun _ => rfl) .none,⟨nofun,?_⟩,rfl⟩
      simpa using fits.bare
    | @trailing ts entry joint reads fits =>
      refine ⟨[(entry,true)],List.cons_ne_nil _ _,.entry (reads.taken fits .comma fun _ => rfl) .none,⟨nofun,?_⟩,rfl⟩
      simpa using fits.bare
    | @comma ts entry joint rest entries reads fits more ih =>
      obtain ⟨items,some_,accepted,regular,rfl⟩ := ih
      exact ⟨(entry,true)::items,List.cons_ne_nil _ _,.entry (reads.taken fits .comma nofun) accepted,
        (regular_cons some_).mpr ⟨rfl,fits.bare,regular⟩,rfl⟩
  · rintro ⟨items,some_,accepted,regular,rfl⟩
    induction accepted with
    | none => exact absurd rfl some_
    | @entry ts entry comma rest items taken more ih =>
      obtain ⟨after,reads,followed⟩ := taken.reads
      have fits := taken.fits (regular.2 _ List.mem_cons_self)
      cases more with
      | none =>
        cases followed with
        | comma => exact .trailing reads fits
        | bare => exact .last reads fits
      | entry taken' more' =>
        obtain ⟨rfl,_,regular⟩ := (regular_cons (List.cons_ne_nil _ _)).mp regular
        cases followed with
        | comma => exact .comma reads fits (ih (List.cons_ne_nil _ _) regular)

theorem Documented.regular (documented : Documented syn ts resources) (accepted : Accepted syn ts items) : Regular items := by
  obtain ⟨entries,listed,_,_⟩ := documented
  obtain ⟨items',_,accepted',regular,_⟩ := listed_iff.mp listed
  exact accepted.unique accepted' ▸ regular
end

-- The list is parsed by its grammar if and only if, where the loop takes it as entries with distinct names, each but
-- the last has its comma and none without a value has attributes.
theorem local_resources_iff (syn : Parsers) (ts after : List Token) :
    (∀ resources, parseLocalResources syn (.group .bracket ts::after) = .ok (resources,after) ↔ Documented syn ts resources) ↔
      ∀ items, Accepted syn ts items → (items.map fun item => item.1.name).Nodup → Regular items := by
  have names : ∀ items : List (Entry × Bool), (items.map Prod.fst).map Entry.name = items.map fun item => item.1.name :=
    fun items => List.map_map
  simp only [parseLocalResources_ok,localResources_ok]
  refine ⟨fun exact_ items accepted distinct => ?_,fun regular resources => ⟨?_,?_⟩⟩
  · cases empty : items with
    | nil => exact ⟨nofun,nofun⟩
    | cons item rest =>
      have some_ : items ≠ [] := fun same => nomatch same.symm.trans empty
      exact empty ▸ ((exact_ _).mp ⟨items,some_,accepted,distinct,rfl⟩).regular accepted
  · rintro ⟨items,some_,accepted,distinct,rfl⟩
    exact ⟨items.map Prod.fst,listed_iff.mpr ⟨items,some_,accepted,regular items accepted distinct,rfl⟩,
      (names items).symm ▸ distinct,rfl⟩
  · rintro ⟨_,listed,distinct,rfl⟩
    obtain ⟨items,some_,accepted,_,rfl⟩ := listed_iff.mp listed
    exact ⟨items,some_,accepted,(names items) ▸ distinct,rfl⟩

-- As much of syn as reads one attribute, and types and values of one token.
def plainExprPath : ParseStream ExprPath
  | .punct '#' _::.group .bracket [.ident attr]::.ident name::rest =>
    .ok (⟨[⟨.outer,.ofIdent attr,none⟩],.ofIdent name⟩,rest)
  | .ident name::rest => .ok (⟨[],.ofIdent name⟩,rest)
  | ts => .error ⟨.tokens ts,"expected identifier"⟩

def plainType : ParseStream Type_
  | .ident name::rest => .ok (.path false (.ofIdent name),rest)
  | ts => .error ⟨.tokens ts,"expected type"⟩

def plainExpr : ParseStream Expr
  | .literal text::rest => .ok ([.literal text],rest)
  | ts => .error ⟨.tokens ts,"expected expression"⟩

def plain : Parsers where
  exprPath := plainExprPath
  type_ := plainType
  expr := plainExpr
  exprPath_consumes ts a rest result := by
    unfold plainExprPath at result
    split at result <;> cases result
    · simp only [List.length_cons]
      omega
    · exact Nat.lt_succ_self _
  type_consumes ts a rest result := by
    unfold plainType at result
    split at result <;> cases result
    exact Nat.lt_succ_self _
  expr_consumes ts a rest result := by
    unfold plainExpr at result
    split at result <;> cases result
    exact Nat.lt_succ_self _

-- a: u8 = 1 b: u8 = 2, and #[test] a, neither of which is documented.
def missingComma : List Token :=
  [.ident "a",.punct ':' false,.ident "u8",.punct '=' false,.literal "1",
    .ident "b",.punct ':' false,.ident "u8",.punct '=' false,.literal "2"]
def lastWithAttribute : List Token := [.punct '#' false,.group .bracket [.ident "test"],.ident "a"]

theorem undocumented_accepted :
    (∃ resources, parseLocalResources plain [.group .bracket missingComma] = .ok (resources,[]) ∧
      ¬ Documented plain missingComma resources) ∧
    (∃ resources, parseLocalResources plain [.group .bracket lastWithAttribute] = .ok (resources,[]) ∧
      ¬ Documented plain lastWithAttribute resources) ∧
    ¬ ∃ resources, parseLocalResources plain [.group .bracket (lastWithAttribute++[.punct ',' false])] = .ok (resources,[]) := by
  have two : Accepted plain missingComma _ :=
    .entry (.value (.value rfl rfl rfl) rfl (.bare rfl)) (.entry (.value (.value rfl rfl rfl) rfl (.bare rfl)) .none)
  have one : Accepted plain lastWithAttribute _ := .entry (.last (.ident rfl)) .none
  have first := localResources_ok.mpr ⟨_,List.cons_ne_nil _ _,two,by decide,rfl⟩
  have second := localResources_ok.mpr ⟨_,List.cons_ne_nil _ _,one,by decide,rfl⟩
  refine ⟨⟨_,parseLocalResources_ok.mpr first,fun documented => ?_⟩,
    ⟨_,parseLocalResources_ok.mpr second,fun documented => ?_⟩,?_⟩
  · exact nomatch (documented.regular two).1 _ List.mem_cons_self
  · exact nomatch (documented.regular one).2 _ List.mem_cons_self rfl
  · rintro ⟨resources,result⟩
    obtain ⟨items,_,accepted,_,_⟩ := localResources_ok.mp (parseLocalResources_ok.mp result)
    cases accepted with
    | entry taken more =>
      cases taken with
      | value reads =>
        cases reads with
        | value path => cases path
      | ident reads pass =>
        cases reads with
        | ident path =>
          cases path
          cases pass
      | last reads =>
        cases reads with
        | ident path => cases path

end Rtic.Syntax.Syn
