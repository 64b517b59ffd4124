/-!
# Error codes

Every diagnostic carries a code that never changes. Codes are ordered as they are listed; the order
decides between diagnostics at one place. A fatal code ends the reading of a source text.
-/

namespace GraphSchema

/-- The code of a diagnostic. -/
inductive ErrorCode where
  | syntaxError
  | unimplemented
  | typeOptChain
  | typeRedecl
  | typeUndef
  | aliasRecurs
  | enumNoVal
  | enumValRedecl
  | unionMissingOpts
  | unionRedund
  | unionRecurs
  | unionIncludesNone
  | structNoFields
  | structFieldRedecl
  | structFieldImpure
  | structRecurs
  | resolverNoProps
  | resolverPropRedecl
  | graphRootNodeRedecl
  | paramRedecl
  | paramImpure
  | noEndpoints
deriving DecidableEq, Repr, Inhabited

namespace ErrorCode

/-- The codes in their order. -/
def all : List ErrorCode :=
  [syntaxError, unimplemented, typeOptChain, typeRedecl, typeUndef, aliasRecurs, enumNoVal,
   enumValRedecl, unionMissingOpts, unionRedund, unionRecurs, unionIncludesNone, structNoFields,
   structFieldRedecl, structFieldImpure, structRecurs, resolverNoProps, resolverPropRedecl,
   graphRootNodeRedecl, paramRedecl, paramImpure, noEndpoints]

/-- The spelling of a code. -/
def text : ErrorCode → String
  | syntaxError => "ErrSyntax"
  | unimplemented => "ErrUnimplemented"
  | typeOptChain => "ErrTypeOptChain"
  | typeRedecl => "ErrTypeRedecl"
  | typeUndef => "ErrTypeUndef"
  | aliasRecurs => "ErrAliasRecurs"
  | enumNoVal => "ErrEnumNoVal"
  | enumValRedecl => "ErrEnumValRedecl"
  | unionMissingOpts => "ErrUnionMissingOpts"
  | unionRedund => "ErrUnionRedund"
  | unionRecurs => "ErrUnionRecurs"
  | unionIncludesNone => "ErrUnionIncludesNone"
  | structNoFields => "ErrStructNoFields"
  | structFieldRedecl => "ErrStructFieldRedecl"
  | structFieldImpure => "ErrStructFieldImpure"
  | structRecurs => "ErrStructRecurs"
  | resolverNoProps => "ErrResolverNoProps"
  | resolverPropRedecl => "ErrResolverPropRedecl"
  | graphRootNodeRedecl => "ErrGraphRootNodeRedecl"
  | paramRedecl => "ErrParamRedecl"
  | paramImpure => "ErrParamImpure"
  | noEndpoints => "ErrNoEndpoints"

/-- The code with a given spelling. -/
def ofText? (text : String) : Option ErrorCode :=
  all.find? fun code => code.text == text

/-- The place of a code in their order. -/
def rank (code : ErrorCode) : Nat :=
  all.idxOf code

instance : Ord ErrorCode := ⟨fun a b => compare a.rank b.rank⟩

/-- Does the code end the reading of a source text? -/
def isFatal : ErrorCode → Bool
  | syntaxError | unimplemented | typeOptChain => true
  | _ => false

instance : ToString ErrorCode := ⟨text⟩

theorem mem_all (code : ErrorCode) : code ∈ all := by
  cases code <;> decide

theorem text_injective {a b : ErrorCode} (h : a.text = b.text) : a = b := by
  cases a <;> cases b <;> first | rfl | simp [text] at h

theorem rank_injective {a b : ErrorCode} (h : a.rank = b.rank) : a = b := by
  cases a <;> cases b <;> first | rfl | exact absurd h (by decide)

end ErrorCode

end GraphSchema
