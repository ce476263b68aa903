import PerpRollout.Record.Address

/-!
# Rules for records

What a record must fulfil before it is used.  The template rules hold for every
record, deployed or not.  The rules of a step add the addresses the step needs
and, for the market maker, reserves that are not zero.

Each rule gives its findings on its own; `check` puts them together in a fixed
order, and `validate` fails with the first one after logging all.  A rule can
also fail as a whole: when a numeral is too long to be read, or an integer too
long to be shown.
-/

namespace PerpRollout

abbrev Findings := Except Failure (List Invalid)

namespace Rules

def maxDecimals : Int := 18

def maxReserve : Nat := Nat.pow 2 128 - 1

/-- The largest product of the two reserves. -/
def maxProduct : Nat := Nat.pow 2 256 - 1

/-- A fault of a checked value is a finding under the field. -/
def finding {α : Type} (env : Option String) (field : String) (r : Except Failure α) : Findings :=
  match r with
  | .ok _ => .ok []
  | .error (.fault f) => .ok [⟨field, env, .fault f⟩]
  | .error e => .error e

/-- A finding under the field, when the condition holds. -/
def findingIf (condition : Bool) (env : Option String) (field : String) (reason : Reason) :
    Findings :=
  if !condition then .ok []
  else if reason.isWritable then .ok [⟨field, env, reason⟩]
  else .error .integerTooLong

/-- All findings in order, unless a rule fails. -/
def gather : List Findings → Findings
  | [] => .ok []
  | f :: rest => do
    let found ← f
    let others ← gather rest
    return found ++ others

/-! ## Template rules -/

/-- A number of decimals within its bounds. -/
def decimalsInRange (decimals : Int) : Bool :=
  0 ≤ decimals && decimals ≤ maxDecimals

/-- The decimals of a section are within bounds. -/
def decimalsRule (env : Option String) (s : Section) (decimals : Int) : Findings :=
  finding env (s.path "decimals")
    (Check.integer (.int decimals) (some 0) (some maxDecimals) "decimals")

/-- The decimals of a section agree with those of the engine, as far as both are
within bounds. -/
def sameDecimalsRule (env : Option String) (s : Section) (decimals reference : Int) : Findings :=
  findingIf (decimalsInRange reference && decimalsInRange decimals && decimals != reference)
    env (s.path "decimals") (.decimalsDiffer decimals reference)

/-- The scale of a section; none when its decimals are negative. -/
def scale? (decimals : Int) : Except Failure (Option Nat) :=
  match FixedPoint.scale decimals with
  | .ok n => .ok (some n)
  | .error (.fault _) => .ok none
  | .error e => .error e

/-- A ratio is a numeral, and at most one at the scale of its section. -/
def checkRatio (decimals : Int) (name ratio : String) : Except Failure Check.Chain := do
  let scale ← scale? decimals
  let chain ← (Check.Chain.mk (.str ratio) name).isNumeral
  match scale with
  | some n => chain.atMost n
  | none => return chain

/-- The rule of `checkRatio` for a field. -/
def ratioRule (env : Option String) (s : Section) (decimals : Int) (field : String × String) :
    Findings :=
  finding env (s.path field.1) (checkRatio decimals field.1 field.2)

/-- What a rule on two numerals finds; nothing when one of them is no numeral,
which other rules report. -/
def onNumerals (first second : String) (rule : Nat → Nat → Findings) : Findings :=
  match Check.numeral (.str first) none "value" with
  | .error (.fault _) => .ok []
  | .error e => .error e
  | .ok a =>
    match Check.numeral (.str second) none "value" with
    | .error (.fault _) => .ok []
    | .error e => .error e
    | .ok b => rule a b

/-- The maintenance margin is at most the initial margin. -/
def marginRule (env : Option String) (e : Engine) : Findings :=
  onNumerals e.initialMarginRatio e.maintenanceMarginRatio fun initial maintenance =>
    findingIf (initial < maintenance) env (Section.engine.path "maintenance_margin_ratio")
      (.marginsCross maintenance initial)

/-- A reserve is a numeral of at most 128 bits. -/
def reserveRule (env : Option String) (field : String × String) : Findings :=
  finding env (Section.vamm.path field.1)
    (Check.numeral (.str field.2) (some maxReserve) field.1)

def engineRatios (e : Engine) : List (String × String) :=
  [("initial_margin_ratio", e.initialMarginRatio),
    ("maintenance_margin_ratio", e.maintenanceMarginRatio), ("liquidation_fee", e.liquidationFee)]

def vammRatios (v : Vamm) : List (String × String) :=
  [("toll_ratio", v.tollRatio), ("spread_ratio", v.spreadRatio),
    ("fluctuation_limit_ratio", v.fluctuationLimitRatio)]

def reserves (v : Vamm) : List (String × String) :=
  [("quote_asset_reserve", v.quoteReserve), ("base_asset_reserve", v.baseReserve)]

/-- The asset of a field has a name. -/
def assetRule (env : Option String) (field : String × String) : Findings :=
  finding env (Section.vamm.path field.1) (Check.text (.str field.2) [] false field.1)

/-- The funding period is positive, and the pair is of two named assets. -/
def vammRules (env : Option String) (v : Vamm) : List Findings :=
  [finding env (Section.vamm.path "funding_period")
      (Check.integer (.int v.fundingPeriod) (some 1) none "funding_period"),
    assetRule env ("quote_asset", v.quoteAsset),
    assetRule env ("base_asset", v.baseAsset),
    findingIf (!v.quoteAsset.isEmpty && v.quoteAsset = v.baseAsset) env
      (Section.vamm.path "base_asset") (.sameAsset v.quoteAsset)]

def assetPath (index : Nat) : String :=
  Section.initialAssets.key ++ "[" ++ Numeral.ofNat index ++ "]"

/-- Every whitelisted asset has a symbol of its own and decimals within bounds.
`seen` holds the symbols of the assets before. -/
def assetRules (env : Option String) (index : Nat) (seen : List String) :
    List Asset → List Findings
  | [] => []
  | a :: rest =>
    let named := !Text.blank a.symbol
    finding env (assetPath index ++ ".symbol") (Check.text (.str a.symbol) [] false "symbol") ::
      finding env (assetPath index ++ ".decimals")
        (Check.integer (.int a.decimals) (some 0) (some maxDecimals) "decimals") ::
      findingIf (named && seen.contains a.symbol) env (assetPath index ++ ".symbol")
        (.repeatedAsset a.symbol) ::
      assetRules env (index + 1) (if named then a.symbol :: seen else seen) rest

/-- All template rules, in the order their findings are listed. -/
def template (env : Option String) (r : Record) : List Findings :=
  [decimalsRule env .priceFeed r.priceFeed.decimals,
    decimalsRule env .engine r.engine.decimals,
    decimalsRule env .vamm r.vamm.decimals,
    sameDecimalsRule env .priceFeed r.priceFeed.decimals r.engine.decimals,
    sameDecimalsRule env .vamm r.vamm.decimals r.engine.decimals] ++
  (engineRatios r.engine).map (ratioRule env .engine r.engine.decimals) ++
  (vammRatios r.vamm).map (ratioRule env .vamm r.vamm.decimals) ++
  [marginRule env r.engine] ++
  (reserves r.vamm).map (reserveRule env) ++
  vammRules env r.vamm ++
  assetRules env 0 [] r.assets

/-! ## Step rules -/

/-- The slot of a module holds an address. -/
def addressRule (env : Option String) (r : Record) (m : Module) : Findings :=
  finding env m.path (Check.address (r.slotJson m) m.field)

/-- A reserve that is not zero. -/
def positiveRule (env : Option String) (name : String) (reserve : Nat) : Findings :=
  findingIf (reserve = 0) env (Section.vamm.path name) (.reserveZero name)

/-- The curve can be opened: both reserves are not zero and their product has at
most 256 bits.  Nothing more is found from a reserve on that is no numeral. -/
def curveRule (env : Option String) (v : Vamm) : Findings :=
  match Check.numeral (.str v.quoteReserve) none "value" with
  | .error (.fault _) => .ok []
  | .error e => .error e
  | .ok quote => do
    let first ← positiveRule env "quote_asset_reserve" quote
    match Check.numeral (.str v.baseReserve) none "value" with
    | .error (.fault _) => return first
    | .error e => throw e
    | .ok base =>
      let second ← positiveRule env "base_asset_reserve" base
      let third ← findingIf (maxProduct < quote * base) env
        (Section.vamm.path "quote_asset_reserve") (.productTooWide (quote * base))
      return first ++ second ++ third

def ofStep (env : Option String) (r : Record) (s : Step) : List Findings :=
  s.requirements.map (addressRule env r) ++ (if s = .vamm then [curveRule env r.vamm] else [])

/-! ## All rules together -/

/-- Which rules a record is checked by, besides the template rules. -/
inductive Scope where
  | template
  /-- The rules of the step that a value names. -/
  | named (step : Json)
  | step (s : Step)
  | everything
  deriving Repr

/-- The steps whose rules are in scope. -/
def Scope.steps : Scope → Except Failure (List Step)
  | .template => .ok []
  | .named value => do return [← Step.parse value]
  | .step s => .ok [s]
  | .everything => .ok Step.order

/-- The scope of a request that may name a step, or ask for every step. -/
def Scope.of (step : Json) (deployable : Bool) : Scope :=
  if deployable then .everything
  else match step with
    | .null => .template
    | value => .named value

/-- Everything that is wrong with a record. -/
def check (r : Record) (env : Option String) (scope : Scope) : Findings := do
  let found ← gather (template env r)
  let steps ← scope.steps
  let more ← gather (steps.flatMap (ofStep env r))
  return found ++ more

def warning (e : Invalid) : Log.Line :=
  Log.line .warning ("Invalid config: " ++ e.message)

/-- The record itself when nothing is wrong with it; else the first finding, after
a line about each. -/
def validate (r : Record) (env : Option String) (scope : Scope) : Logged Record :=
  match check r env scope with
  | .error e => .fail e
  | .ok [] => .pure r
  | .ok (e :: rest) => ⟨(e :: rest).map warning, .error (.invalid e)⟩

end Rules

end PerpRollout
