import TinCompiler.AST

/-!
# Scopes, types and identifiers

The operations of `AST.cpp` on the tables: scope search, lookups by name, the
creation of types, scopes and identifiers, and the state the constructor of `AST`
leaves behind.
-/

namespace TinCompiler

namespace AST

/-! ## Scope search -/

/-- The scopes queued for the search and how many of them have been returned. -/
structure ScopeIterator where
  searchScopes : List ScopeId
  searchIndex : ℕ := 0

def createScopeIterator (scopeId : ScopeId) : ScopeIterator where
  searchScopes := [scopeId]

/-- The lambda `add` of `iterate`: only the scopes already returned are looked at
when a scope is queued. -/
def ScopeIterator.add (iterator : ScopeIterator) (scopeId : ScopeId) : ScopeIterator :=
  if scopeId ∈ iterator.searchScopes.take iterator.searchIndex then iterator
  else { iterator with searchScopes := iterator.searchScopes ++ [scopeId] }

/-- The next scope of the search: shared scopes are queued before the parent. -/
def iterate (ast : AST) (iterator : ScopeIterator) : Option (ScopeInfo × ScopeIterator) :=
  match iterator.searchScopes[iterator.searchIndex]? with
  | none => none
  | some scopeId =>
      let info := ast.scopes scopeId
      let iterator := { iterator with searchIndex := iterator.searchIndex + 1 }
      let iterator := info.sharedScopes.foldl ScopeIterator.add iterator
      some (info, if info.scopeId ≠ info.parent then iterator.add info.parent else iterator)

/-- `while((scope = iterate(iterator)))`, stopped at the first scope that has what
`select` looks for.  The first argument bounds the number of iterations. -/
def searchFrom {α : Type} (ast : AST) (select : ScopeInfo → Option α) :
    ℕ → ScopeIterator → Option α
  | 0, _ => none
  | fuel + 1, iterator =>
      match ast.iterate iterator with
      | none => none
      | some (scope, iterator) =>
          match select scope with
          | some found => some found
          | none => searchFrom ast select fuel iterator

/-- A bound on the length of any search: a scope may be queued again by each scope
that reaches it before it is first returned. -/
def searchFuel (ast : AST) : ℕ :=
  (((List.range ast.scopesUsed).map fun scopeId => (ast.scopes scopeId).sharedScopes.length).sum + 2)
    ^ (ast.scopesUsed + 1)

def search {α : Type} (ast : AST) (select : ScopeInfo → Option α) (scopeId : ScopeId) : Option α :=
  ast.searchFrom select ast.searchFuel (createScopeIterator scopeId)

theorem search_of_own {α : Type} {ast : AST} {select : ScopeInfo → Option α} {scopeId : ScopeId}
    {found : α} (hfound : select (ast.scopes scopeId) = some found) :
    ast.search select scopeId = some found := by
  have hfuel : ast.searchFuel ≠ 0 := by simp [searchFuel]
  obtain ⟨fuel, hfuel⟩ := Nat.exists_eq_succ_of_ne_zero hfuel
  simp [search, hfuel, searchFrom, iterate, createScopeIterator, hfound]

/-- The search depends on the links between the scopes and on what is selected in each. -/
theorem searchFrom_congr {α : Type} {ast ast' : AST} {select : ScopeInfo → Option α}
    (hshared : ∀ i, (ast'.scopes i).sharedScopes = (ast.scopes i).sharedScopes)
    (hscopeId : ∀ i, (ast'.scopes i).scopeId = (ast.scopes i).scopeId)
    (hparent : ∀ i, (ast'.scopes i).parent = (ast.scopes i).parent)
    (hselect : ∀ i, select (ast'.scopes i) = select (ast.scopes i)) :
    ∀ fuel iterator, ast'.searchFrom select fuel iterator = ast.searchFrom select fuel iterator := by
  intro fuel
  induction fuel with
  | zero => exact fun _ => rfl
  | succ fuel ih =>
      intro iterator
      unfold searchFrom iterate
      cases iterator.searchScopes[iterator.searchIndex]? with
      | none => rfl
      | some scopeId => simp only [hshared, hscopeId, hparent, hselect, ih]

theorem search_congr {α : Type} {ast ast' : AST} {select : ScopeInfo → Option α}
    (hused : ast'.scopesUsed = ast.scopesUsed)
    (hshared : ∀ i, (ast'.scopes i).sharedScopes = (ast.scopes i).sharedScopes)
    (hscopeId : ∀ i, (ast'.scopes i).scopeId = (ast.scopes i).scopeId)
    (hparent : ∀ i, (ast'.scopes i).parent = (ast.scopes i).parent)
    (hselect : ∀ i, select (ast'.scopes i) = select (ast.scopes i)) (scopeId : ScopeId) :
    ast'.search select scopeId = ast.search select scopeId := by
  have hfuel : ast'.searchFuel = ast.searchFuel := by simp only [searchFuel, hused, hshared]
  rw [search, search, hfuel]
  exact searchFrom_congr hshared hscopeId hparent hselect _ _

/-- What a search finds is selected in some scope. -/
theorem exists_of_searchFrom {α : Type} {ast : AST} {select : ScopeInfo → Option α} {found : α} :
    ∀ {fuel iterator}, ast.searchFrom select fuel iterator = some found →
      ∃ i, select (ast.scopes i) = some found := by
  intro fuel
  induction fuel with
  | zero => simp [searchFrom]
  | succ fuel ih =>
      intro iterator hfound
      unfold searchFrom iterate at hfound
      cases hscope : iterator.searchScopes[iterator.searchIndex]? with
      | none => simp [hscope] at hfound
      | some scopeId =>
          cases hselect : select (ast.scopes scopeId) with
          | none => simp only [hscope, hselect] at hfound; exact ih hfound
          | some other =>
              simp only [hscope, hselect, Option.some.injEq] at hfound
              exact ⟨scopeId, hfound ▸ hselect⟩

def findType (ast : AST) (name : String) (scopeId : ScopeId) : Option ℕ :=
  ast.search (fun scope => scope.typeMap name) scopeId

def findVariable (ast : AST) (name : String) (scopeId : ScopeId) : Option Identifier :=
  ast.search (fun scope => scope.identifiers name) scopeId

/-- The index of the function: the first one of that name in the first scope that
has one. -/
def findFunction (ast : AST) (name : String) (scopeId : ScopeId) : Option ℕ :=
  ast.search (fun scope => scope.functions.find? fun f => (ast.functions f).name = name) scopeId

/-! ## Types -/

/-- A type string without its trailing asterisks, and their number.  A string made
of asterisks only is left alone. -/
def splitPointers (str : String) : String × ℕ :=
  let chars := str.toList
  let stars := (chars.reverse.takeWhile (· = '*')).length
  if stars = chars.length then (str, 0)
  else (String.ofList (chars.take (chars.length - stars)), stars)

def convertFullType (ast : AST) (str : String) (scopeId : ScopeId) : TypeId :=
  match ast.findType (splitPointers str).1 scopeId with
  | none => .void
  | some info => (ast.typeInfos info).typeId.setPointerLevel (splitPointers str).2

/-- `getType`, an access to the array. -/
def getType (ast : AST) (type : TypeId) : TypeInfo := ast.typeInfos type.index

/-- The structure whose type is `type`, held by value. -/
def structOf (ast : AST) (type : TypeId) : Option ℕ :=
  if type.pointerLevel = 0 then (ast.getType type).astStruct else none

def sizeOfType (ast : AST) (type : TypeId) : ℕ :=
  if type.pointerLevel ≠ 0 then 8 else (ast.getType type).size

def nameOfType (ast : AST) (type : TypeId) : String :=
  (ast.getType type.base).name ++ String.ofList (List.replicate type.pointerLevel '*')

/-- `createType` returns the index of the new entry. -/
def createType (ast : AST) (name : String) (scopeId : ScopeId) : ℕ × AST :=
  let id := ast.typesUsed
  let scope := ast.scopes scopeId
  (id, { ast with
    typesUsed := id + 1
    typeInfos := Function.update ast.typeInfos id
      { ast.typeInfos id with name := name, typeId := ⟨id, 0⟩ }
    scopes := Function.update ast.scopes scopeId
      { scope with typeMap := Function.update scope.typeMap name (some id) } })

/-! ## Scopes and identifiers -/

def createScope (ast : AST) (parent : ScopeId) : ScopeId × AST :=
  let id := ast.scopesUsed
  (id, { ast with
    scopesUsed := id + 1
    scopes := Function.update ast.scopes id
      { ast.scopes id with scopeId := id, parent := parent } })

/-- `addVariable` returns a null pointer when the scope already has the name. -/
def addVariable (ast : AST) (kind : IdentifierKind) (name : String) (scopeId : ScopeId)
    (type : TypeId) (frameOffset : ℤ) (statement : Option ASTStatement := none) : Option AST :=
  let scope := ast.scopes scopeId
  match scope.identifiers name with
  | some _ => none
  | none =>
      let identifier : Identifier :=
        { kind := kind, type := type, offset := frameOffset, statement := statement }
      some { ast with
        scopes := Function.update ast.scopes scopeId
          { scope with identifiers := Function.update scope.identifiers name (some identifier) } }

/-! ## The constructor -/

private def native (number : ℤ) (name : String) (parameters : List (String × String))
    (returnTypeString : String) : ASTFunction where
  name := name
  parameters := parameters.map fun parameter =>
    { name := parameter.1, typeString := parameter.2 }
  returnTypeString := returnTypeString
  pieceCodeIndex := number - 11
  isNative := true

/-- The functions added by the constructor, with `piece_code_index` equal to the
native number minus `NATIVE_MAX`. -/
def nativeFunctions : List ASTFunction :=
  [native 0 "printi" [("v", "int")] "",
   native 1 "printf" [("v", "float")] "",
   native 2 "printc" [("v", "char")] "",
   native 3 "prints" [("v", "char*")] "",
   native 4 "malloc" [("size", "int")] "void*",
   native 5 "mfree" [("ptr", "void*")] "",
   native 6 "memcpy" [("dst", "void*"), ("src", "void*"), ("size", "int")] "",
   native 7 "pow" [("x", "float"), ("y", "float")] "float",
   native 8 "sqrt" [("x", "float")] "float",
   native 9 "read_file" [("path", "char*"), ("out_data", "char**"), ("out_size", "int*")] "bool",
   native 10 "write_file" [("path", "char*"), ("data", "char*"), ("size", "int")] "bool"]

/-- `primitive_names` with the sizes the constructor gives them. -/
def primitiveTypes : List (String × ℕ) :=
  [("void", 0), ("int", 4), ("char", 1), ("bool", 1), ("float", 4)]

/-- The macro `ADD` of the constructor. -/
def addPrimitive (ast : AST) (primitive : String × ℕ) : AST :=
  let created := ast.createType primitive.1 globalScope
  { created.2 with
    typeInfos := Function.update created.2.typeInfos created.1
      { created.2.typeInfos created.1 with size := primitive.2 } }

/-- The tables after `AST::AST()`. -/
def initial : AST :=
  let ast := primitiveTypes.foldl addPrimitive (({} : AST).createScope globalScope).2
  { ast with
    functionsUsed := nativeFunctions.length
    functions := fun f => nativeFunctions.getD f ({} : ASTFunction)
    scopes := Function.update ast.scopes globalScope
      { ast.scopes globalScope with functions := List.range nativeFunctions.length } }

example : initial.convertFullType "char**" globalScope = ⟨2, 2⟩ := by decide

theorem initial_scopes {s : ScopeId} (hs : s ≠ globalScope) :
    initial.scopes s = ({} : ScopeInfo) := by
  simp only [initial, addPrimitive, createType, createScope, primitiveTypes, List.foldl_cons,
    List.foldl_nil, Function.update_of_ne hs]
  exact Function.update_of_ne hs _ _

/-- The entries of the primitive types are those of the constructor. -/
def HasPrimitives (ast : AST) : Prop := ∀ i < 5, ast.typeInfos i = initial.typeInfos i

theorem initial_hasPrimitives : initial.HasPrimitives := fun _ _ => rfl

theorem HasPrimitives.int_size {ast : AST} (h : ast.HasPrimitives) : (ast.getType .int).size = 4 := by
  rw [getType, h 1 (by decide)]
  decide

theorem HasPrimitives.astStruct {ast : AST} (h : ast.HasPrimitives) {type : TypeId}
    (hlt : type.index < 5) : (ast.getType type).astStruct = none := by
  rw [getType, h _ hlt]
  have hall : ∀ i < 5, (initial.typeInfos i).astStruct = none := by decide
  exact hall _ hlt

theorem HasPrimitives.structOf {ast : AST} (h : ast.HasPrimitives) {type : TypeId}
    (hlt : type.index < 5) : ast.structOf type = none := by
  simp [AST.structOf, h.astStruct hlt]

end AST

end TinCompiler
