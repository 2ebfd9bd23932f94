import TieredOMap.Tiered.Maintenance

/-! # Configuration of a tiered map -/

namespace TieredOmap

/-- `SecurityMode`. -/
inductive SecurityMode where
  | fullOblivious
  | tierMembership
deriving DecidableEq, Repr, Inhabited

/-- `OmapBackend`. -/
inductive OmapBackend where
  | avl
  | bPlus
  | daAvl
  | daBplus
deriving DecidableEq, Repr, Inhabited

/-- `TieredOMapConfig`. -/
structure TieredOMapConfig where
  totalKeys : Int := 0
  hotSetSize : Int := 0
  mode : SecurityMode := .fullOblivious
  useSplitOram : Bool := false
  bucketSize : Int := 4
  backend : OmapBackend := .avl
  hotBackend : OmapBackend := .avl
  useHotBackend : Bool := false
  bplusOrder : Int := 8
  maintenance : MaintenanceConfig := {}
deriving DecidableEq, Repr, Inhabited

namespace TieredOMapConfig

/-- `effective_hot_backend`. -/
def effectiveHotBackend (config : TieredOMapConfig) : OmapBackend :=
  if config.useHotBackend then config.hotBackend else config.backend

/-- `is_da`. -/
def isDa (backend : OmapBackend) : Bool := backend == .daAvl || backend == .daBplus

/-- `is_da_hot`. -/
def isDaHot (config : TieredOMapConfig) : Bool := isDa config.effectiveHotBackend

end TieredOMapConfig

end TieredOmap
