import PlaceSearch.Plan.Generate
import PlaceSearch.Proofs.Decimal.Half
import PlaceSearch.Proofs.Plan.Level

/-!
# Generated plans in breadth-first order

The layers of a plan are the first circle and, divided again and again, its parts; there are as
many below the first one as the radius can be halved before it falls below the minimum.  Writing
the layers one after the other is what a queue does that takes a circle from its front and puts
the parts of the circle at its end, and it puts the parts of a row where its place tells.
-/

namespace PlaceSearch

/-! ## How often a radius is halved -/

/-- A radius, halved a number of times. -/
def halved (radius : Float) (i : Nat) : Float :=
  (· / 2.0)^[i] radius

/-- The layers below the first one: those for which the radius, halved as often, stays at or above
a positive minimum. -/
def splits (minRadius radius : Float) : Set Nat :=
  {i | 1 ≤ i ∧ halved radius i ≥ minRadius ∧ minRadius > 0.0}

variable {minRadius radius : Float} {i k : Nat}

@[simp] theorem halved_zero (radius : Float) : halved radius 0 = radius := rfl

theorem halved_succ (radius : Float) (i : Nat) :
    halved radius (i + 1) = halved (radius / 2.0) i := rfl

theorem halved_succ' (radius : Float) (i : Nat) :
    halved radius (i + 1) = halved radius i / 2.0 :=
  Function.iterate_succ_apply' _ _ _

/-- With a layer all layers above it are there. -/
theorem mem_splits_of_succ (hi : 1 ≤ i) (h : i + 1 ∈ splits minRadius radius) :
    i ∈ splits minRadius radius := by
  obtain ⟨-, hmin, hpos⟩ := h
  rw [halved_succ'] at hmin
  exact ⟨hi, Decimal.le_of_le_div_two hpos hmin, hpos⟩

theorem mem_splits_of_le {j : Nat} (hi : 1 ≤ i) (hij : i ≤ j) (h : j ∈ splits minRadius radius) :
    i ∈ splits minRadius radius := by
  induction j, hij using Nat.le_induction with
  | base => exact h
  | succ j hij ih => exact ih (mem_splits_of_succ (hi.trans hij) h)

theorem encard_Icc_one (k : Nat) : (Set.Icc 1 k).encard = k := by
  rw [← Finset.coe_Icc, Set.encard_coe_eq_coe_finsetCard, Nat.card_Icc, Nat.add_sub_cancel]

/-- If there are `k` layers below the first one, they are the layers from 1 to `k`. -/
theorem mem_splits_iff (h : (splits minRadius radius).encard = k) :
    i ∈ splits minRadius radius ↔ 1 ≤ i ∧ i ≤ k := by
  constructor
  · intro hi
    have hsub : Set.Icc 1 i ⊆ splits minRadius radius :=
      fun j hj => mem_splits_of_le hj.1 hj.2 hi
    have hcard := Set.encard_le_encard hsub
    rw [h, encard_Icc_one, Nat.cast_le] at hcard
    exact ⟨hi.1, hcard⟩
  · rintro ⟨hpos, hle⟩
    by_contra hi
    have hsub : splits minRadius radius ⊆ Set.Icc 1 (i - 1) := by
      intro j hj
      refine ⟨hj.1, ?_⟩
      by_contra hlt
      exact hi (mem_splits_of_le hpos (by omega) hj)
    have hcard := Set.encard_le_encard hsub
    rw [h, encard_Icc_one, Nat.cast_le] at hcard
    omega

/-- There are as many layers as the last one that is there says. -/
theorem encard_splits (hlast : 1 ≤ k → k ∈ splits minRadius radius)
    (hend : k + 1 ∉ splits minRadius radius) : (splits minRadius radius).encard = k := by
  have heq : splits minRadius radius = Set.Icc 1 k := by
    ext i
    constructor
    · intro hi
      refine ⟨hi.1, ?_⟩
      by_contra hlt
      exact hend (mem_splits_of_le (by omega) (by omega) hi)
    · rintro ⟨hpos, hle⟩
      exact mem_splits_of_le hpos hle (hlast (hpos.trans hle))
  rw [heq, encard_Icc_one]

theorem one_mem_splits_iff :
    1 ∈ splits minRadius radius ↔ radius / 2.0 ≥ minRadius ∧ minRadius > 0.0 := by
  simp only [splits, Set.mem_ofPred_eq, le_refl, true_and, halved_succ radius 0, halved_zero]

/-- Without layers below it a layer is not divided. -/
theorem not_divided_of_encard (h : (splits minRadius radius).encard = (0 : Nat)) :
    ¬(radius / 2.0 ≥ minRadius ∧ minRadius > 0.0) := by
  rw [← one_mem_splits_iff, mem_splits_iff h]
  omega

/-- With layers below it a layer is divided. -/
theorem divided_of_encard (h : (splits minRadius radius).encard = (k + 1 : Nat)) :
    radius / 2.0 ≥ minRadius ∧ minRadius > 0.0 := by
  rw [← one_mem_splits_iff, mem_splits_iff h]
  omega

theorem mem_splits_div_two_iff :
    i ∈ splits minRadius (radius / 2.0) ↔ 1 ≤ i ∧ i + 1 ∈ splits minRadius radius := by
  simp only [splits, Set.mem_ofPred_eq, halved_succ, Nat.le_add_left, true_and]

/-- Below a first layer that is divided there is one layer less than from the first one on. -/
theorem encard_splits_div_two (h : (splits minRadius radius).encard = (k + 1 : Nat)) :
    (splits minRadius (radius / 2.0)).encard = k := by
  have hiff : ∀ i, i ∈ splits minRadius (radius / 2.0) ↔ 1 ≤ i ∧ i ≤ k := by
    intro i
    rw [mem_splits_div_two_iff, mem_splits_iff h]
    omega
  apply encard_splits
  · exact fun hk => (hiff k).mpr ⟨hk, le_rfl⟩
  · rw [hiff]
    omega

/-- A radius that is halved only so often is lowered by it. -/
theorem height_div_two_lt (hdivided : radius / 2.0 ≥ minRadius ∧ minRadius > 0.0)
    (hfin : (splits minRadius radius).Finite) : height (radius / 2.0) < height radius := by
  obtain ⟨hmin, hpos⟩ := hdivided
  have hhalf : 0.0 < radius / 2.0 := Decimal.zero_lt_of_le hpos hmin
  obtain ⟨hradius, hinf | hlt⟩ := Decimal.of_zero_lt_div_two hhalf
  · -- An infinite radius is halved without end.
    have hfix := Decimal.div_two_of_infinity hinf
    have hall : ∀ i, halved radius i = radius := Function.iterate_fixed hfix
    refine absurd hfin (Set.infinite_of_injective_forall_mem (f := Nat.succ) Nat.succ_injective ?_)
    intro i
    refine ⟨by omega, ?_, hpos⟩
    rw [hall, ← hfix]
    exact hmin
  · rw [height, height, Decimal.rank_of_pos hhalf, Decimal.rank_of_pos hradius]
    exact hlt

/-! ## The circles of a plan -/

/-- The seven parts of a circle, with their levels. -/
def parts (x : Circle × String) : List (Circle × String) :=
  (cover x.1).zip (childLevels x.2)

/-- The layer that lies a number of layers below another one. -/
def layerBelow (top : List (Circle × String)) (k : Nat) : List (Circle × String) :=
  (·.flatMap parts)^[k] top

/-- A layer and a number of layers below it. -/
def layers (top : List (Circle × String)) (k : Nat) : List (Circle × String) :=
  (List.range (k + 1)).flatMap (layerBelow top)

variable {top : List (Circle × String)} {c : Circle}

theorem layerBelow_succ (top : List (Circle × String)) (k : Nat) :
    layerBelow top (k + 1) = layerBelow (top.flatMap parts) k := rfl

theorem layerBelow_succ' (top : List (Circle × String)) (k : Nat) :
    layerBelow top (k + 1) = (layerBelow top k).flatMap parts :=
  Function.iterate_succ_apply' _ _ _

@[simp] theorem layers_zero (top : List (Circle × String)) : layers top 0 = top := by
  simp [layers, layerBelow]

theorem layers_succ (top : List (Circle × String)) (k : Nat) :
    layers top (k + 1) = top ++ layers (top.flatMap parts) k := by
  rw [layers, List.range_succ_eq_map, List.flatMap_cons, List.flatMap_map]
  rfl

theorem layers_succ' (top : List (Circle × String)) (k : Nat) :
    layers top (k + 1) = top ++ (layers top k).flatMap parts := by
  rw [layers_succ, layers, layers, List.flatMap_assoc]
  congr 2
  funext i
  rw [← layerBelow_succ, layerBelow_succ']

theorem radius_of_mem_parts {x y : Circle × String} (h : x ∈ parts y) :
    x.1.radius = y.1.radius / 2.0 := by
  obtain ⟨center, -, hx⟩ := List.mem_map.mp (List.of_mem_zip (a := x.1) (b := x.2) h).1
  rw [← hx]

theorem radius_of_mem_flatMap_parts (htop : ∀ x ∈ top, x.1.radius = radius) :
    ∀ x ∈ top.flatMap parts, x.1.radius = radius / 2.0 := by
  intro x hx
  obtain ⟨y, hy, hxy⟩ := List.mem_flatMap.mp hx
  rw [radius_of_mem_parts hxy, htop y hy]

theorem exists_radius_of_mem_layers (htop : ∀ x ∈ top, x.1.radius = radius)
    {x : Circle × String} (h : x ∈ layers top k) : ∃ i, x.1.radius = halved radius i := by
  induction k generalizing radius top with
  | zero =>
    rw [layers_zero] at h
    exact ⟨0, htop x h⟩
  | succ k ih =>
    rw [layers_succ] at h
    rcases List.mem_append.mp h with h | h
    · exact ⟨0, htop x h⟩
    · obtain ⟨i, hi⟩ := ih (radius_of_mem_flatMap_parts htop) h
      exact ⟨i + 1, hi⟩

theorem map_snd_parts (x : Circle × String) : (parts x).map Prod.snd = childLevels x.2 := by
  rw [parts, List.map_snd_zip]
  simp [childLevels, length_cover]

/-- A circle in a layer of circles of one radius. -/
def ofRadius (radius : Float) (x : Coordinate × String) : Circle × String :=
  (⟨x.1, radius⟩, x.2)

theorem map_nextLayer (radius : Float) (top : List (Coordinate × String)) :
    (nextLayer radius top).map (ofRadius (radius / 2.0)) =
      (top.map (ofRadius radius)).flatMap parts := by
  rw [nextLayer, List.map_flatMap, List.flatMap_map]
  simp only [parts, cover, List.zip_map_left]
  rfl

/-- The rows of a layer and of those below it are those of their circles. -/
theorem generateLayers_eq {top : List (Coordinate × String)}
    (h : (splits minRadius radius).encard = k) : generateLayers minRadius radius top =
      (layers (top.map (ofRadius radius)) k).map fun x => renderRow x.1 x.2 := by
  induction k generalizing radius top with
  | zero =>
    rw [generateLayers, if_neg (not_divided_of_encard h), layers_zero, List.map_map]
    rfl
  | succ k ih =>
    have hdivided := divided_of_encard h
    have hheight := height_div_two_lt hdivided (Set.finite_of_encard_eq_coe h)
    rw [generateLayers, if_pos hdivided, if_pos hheight, ih (encard_splits_div_two h),
      map_nextLayer, layers_succ, List.map_append, List.map_map]
    rfl

/-- The circles of the plan of a circle that has a number of layers below the first one. -/
def tree (c : Circle) (k : Nat) : List (Circle × String) :=
  layers [(c, "1")] k

theorem generatePlan_eq (h : (splits minRadius c.radius).encard = k) :
    generatePlan c minRadius =
      (tree c k).map (fun x => renderRow x.1 x.2) ++ [PlanEntry.endMarker] := by
  rw [generatePlan, generateLayers_eq h]
  rfl

/-! ## The levels of a plan -/

/-- The number of circles of a plan with a number of layers below the first one. -/
def circleCount (k : Nat) : Nat :=
  (7 ^ (k + 1) - 1) / 6

theorem circleCount_succ (k : Nat) : circleCount (k + 1) = 7 * circleCount k + 1 := by
  have hmod : ∀ n, 7 ^ n % 6 = 1 := fun n => by rw [Nat.pow_mod]; simp
  have hk := hmod (k + 1)
  have hpow : 7 ^ (k + 1 + 1) = 7 ^ (k + 1) * 7 := Nat.pow_succ ..
  rw [circleCount, circleCount]
  omega

theorem circleCount_pos (k : Nat) : 0 < circleCount k := by
  cases k with
  | zero => decide
  | succ k =>
    rw [circleCount_succ]
    omega

/-- Groups of seven in a row are counted as one list. -/
theorem flatMap_range_seven {α : Type} (f : Nat → α) (n : Nat) :
    (List.range n).flatMap (fun i => (List.range 7).map fun j => f (7 * i + j)) =
      (List.range (7 * n)).map f := by
  induction n with
  | zero => rfl
  | succ n ih =>
    rw [List.range_succ (n := n), List.flatMap_append, ih, Nat.mul_succ, List.range_add,
      List.map_append, List.map_map, List.flatMap_singleton]
    rfl

/-- The levels of the circles, in their order. -/
theorem map_snd_tree (c : Circle) (k : Nat) :
    (tree c k).map Prod.snd = (List.range (circleCount k)).map levelAt := by
  induction k with
  | zero => simp [tree, circleCount, levelAt_zero]
  | succ k ih =>
    have hparts : ((tree c k).flatMap parts).map Prod.snd =
        ((tree c k).map Prod.snd).flatMap childLevels := by
      rw [List.map_flatMap, List.flatMap_map]
      simp only [map_snd_parts]
    have hchild : ∀ i, childLevels (levelAt i) =
        (List.range 7).map fun j => levelAt (7 * i + j + 1) := by
      intro i
      refine List.map_congr_left fun j hj => ?_
      rw [Nat.add_assoc, levelAt_part (by omega) (by have := List.mem_range.mp hj; omega)]
    rw [tree, layers_succ', ← tree, List.map_append, hparts, ih, List.flatMap_map]
    simp only [hchild]
    rw [flatMap_range_seven fun n => levelAt (n + 1), circleCount_succ, List.range_succ_eq_map,
      List.map_cons, List.map_cons, List.map_map, levelAt_zero]
    rfl

theorem length_tree (c : Circle) (k : Nat) : (tree c k).length = circleCount k := by
  have := congrArg List.length (map_snd_tree c k)
  simpa using this

/-- The levels that are read from the rows of a plan, by their places. -/
def levelIn (rows : List String) (i : Nat) : Option String :=
  rows[i]?.bind PlanEntry.levelOf?

theorem levelIn_generatePlan (h : (splits minRadius c.radius).encard = k) (i : Nat) :
    levelIn (generatePlan c minRadius) i =
      if i < circleCount k then some (levelAt i) else none := by
  rw [levelIn, generatePlan_eq h]
  have hlen : ((tree c k).map fun x => renderRow x.1 x.2).length = circleCount k := by
    rw [List.length_map, length_tree]
  split
  · next hi =>
    rw [List.getElem?_append_left (by omega), List.getElem?_map]
    have hlevel := congrArg (·[i]?) (map_snd_tree c k)
    simp only [List.getElem?_map, List.getElem?_range hi] at hlevel
    obtain ⟨x, hx, hsnd⟩ := Option.map_eq_some_iff.mp hlevel
    rw [hx, Option.map_some, Option.bind_some, hsnd, levelOf?_renderRow]
  · next hi =>
    rw [List.getElem?_append_right (by omega)]
    rcases Nat.eq_zero_or_pos (i - circleCount k) with hlast | hpos
    · rw [hlen, hlast]
      decide
    · rw [hlen, List.getElem?_eq_none (by rwa [List.length_singleton])]
      rfl

/-! ## Generating a plan with a queue -/

/-- The rows of a plan, generated by taking a circle from the front of a queue and putting its
parts at the end, until the queue is empty; nothing if the rounds do not suffice. -/
def generateLoop (minRadius : Float) :
    Nat → List (Circle × String) → List String → Option (List String)
  | _, [], rows => some (rows ++ [PlanEntry.endMarker])
  | 0, _ :: _, _ => none
  | rounds + 1, (c, level) :: queue, rows =>
    generateLoop minRadius rounds
      (if c.radius / 2.0 ≥ minRadius ∧ minRadius > 0.0 then queue ++ parts (c, level) else queue)
      (rows ++ [renderRow c level])

variable {queue : List (Circle × String)} {rows : List String} {rounds : Nat}

theorem generateLoop_nil : generateLoop minRadius rounds [] rows =
    some (rows ++ [PlanEntry.endMarker]) := by
  cases rounds <;> rfl

/-- What is in the queue is not written in fewer rounds. -/
theorem generateLoop_eq_none (h : rounds < queue.length) :
    generateLoop minRadius rounds queue rows = none := by
  induction rounds generalizing queue rows with
  | zero =>
    obtain ⟨x, queue, rfl⟩ := List.exists_cons_of_length_pos h
    rfl
  | succ rounds ih =>
    obtain ⟨⟨c, level⟩, queue, rfl⟩ := List.exists_cons_of_length_pos (Nat.zero_lt_of_lt h)
    rw [generateLoop]
    apply ih
    split
    · rw [List.length_append]
      simp at h
      omega
    · simpa using h

/-- The circles of a layer at the front of the queue are written, and their parts, if they are
divided, are put behind the rest of the queue. -/
theorem generateLoop_append (minRadius : Float) (htop : ∀ x ∈ top, x.1.radius = radius)
    (rounds : Nat) (queue : List (Circle × String)) (rows : List String) :
    generateLoop minRadius (top.length + rounds) (top ++ queue) rows =
      generateLoop minRadius rounds
        (queue ++ if radius / 2.0 ≥ minRadius ∧ minRadius > 0.0 then top.flatMap parts else [])
        (rows ++ top.map fun x => renderRow x.1 x.2) := by
  induction top generalizing queue rows with
  | nil => simp
  | cons x top ih =>
    obtain ⟨hx, htop'⟩ := List.forall_mem_cons.mp htop
    obtain ⟨c, level⟩ := x
    rw [List.length_cons, Nat.add_right_comm, List.cons_append, generateLoop, hx]
    split
    · next hmin =>
      rw [List.append_assoc, ih htop', if_pos hmin]
      simp
    · next hmin =>
      rw [ih htop', if_neg hmin]
      simp

/-- The loop ends after as many rounds as there are circles, with the rows of the plan. -/
theorem generateLoop_eq (h : (splits minRadius radius).encard = k)
    (htop : ∀ x ∈ top, x.1.radius = radius) (rounds : Nat) (rows : List String) :
    generateLoop minRadius rounds top rows =
      if rounds < (layers top k).length then none
      else some (rows ++ (layers top k).map (fun x => renderRow x.1 x.2)
        ++ [PlanEntry.endMarker]) := by
  induction k generalizing radius top rounds rows with
  | zero =>
    rw [layers_zero]
    split
    · next hlt => exact generateLoop_eq_none hlt
    · next hlt =>
      obtain ⟨rounds, rfl⟩ := Nat.exists_eq_add_of_le (Nat.not_lt.mp hlt)
      have hloop := generateLoop_append minRadius htop rounds [] rows
      rw [if_neg (not_divided_of_encard h), List.append_nil, List.append_nil,
        generateLoop_nil] at hloop
      exact hloop
  | succ k ih =>
    have hparts := radius_of_mem_flatMap_parts htop
    rw [layers_succ, List.length_append]
    rcases Nat.lt_or_ge rounds top.length with hlt | hge
    · rw [if_pos (by omega), generateLoop_eq_none hlt]
    · obtain ⟨rounds, rfl⟩ := Nat.exists_eq_add_of_le hge
      have hloop := generateLoop_append minRadius htop rounds [] rows
      rw [if_pos (divided_of_encard h), List.append_nil, List.nil_append,
        ih (encard_splits_div_two h) hparts] at hloop
      rw [hloop]
      simp only [Nat.add_lt_add_iff_left, List.map_append, List.append_assoc]

/-! ## Plans in breadth-first order -/

/-- The rows of a plan with `k` layers below the first circle, in breadth-first order. -/
structure IsBreadthFirst (k : Nat) (rows : List String) : Prop where
  /-- There are as many circles as in `k + 1` layers, and one closing row. -/
  length_eq : rows.length = (7 ^ (k + 1) - 1) / 6 + 1
  /-- The closing row comes last. -/
  last_eq : rows[(7 ^ (k + 1) - 1) / 6]? = some PlanEntry.endMarker
  /-- The first row has the level `1`. -/
  level_zero : levelIn rows 0 = some "1"
  /-- The seven parts of a row that is not in the last layer follow in their places. -/
  level_part : ∀ i < (7 ^ k - 1) / 6, ∃ level, levelIn rows i = some level ∧
    ∀ j, 1 ≤ j → j ≤ 7 → levelIn rows (7 * i + j) = some (level ++ "." ++ toString j)
  /-- All levels are distinct. -/
  level_inj : ∀ a b level, levelIn rows a = some level → levelIn rows b = some level → a = b
  /-- Every row comes before all rows below it. -/
  lt_of_below : ∀ a b upper lower, levelIn rows a = some upper → levelIn rows b = some lower →
    PlanEntry.levelBelow lower upper = true → a < b

theorem eq_levelAt {level : String} (h : (splits minRadius c.radius).encard = k)
    (hlevel : levelIn (generatePlan c minRadius) i = some level) : level = levelAt i := by
  rw [levelIn_generatePlan h] at hlevel
  split at hlevel
  · exact (Option.some.inj hlevel).symm
  · cases hlevel

/-- If the radius, halved again and again, stays `k` times at or above a positive minimum, the
plan of a circle is made in as many rounds as `k + 1` layers have circles, and has them in
breadth-first order. -/
theorem generatePlan_breadthFirst (h : (splits minRadius c.radius).encard = k) :
    IsBreadthFirst k (generatePlan c minRadius) ∧
      ∀ rounds, generateLoop minRadius rounds [(c, "1")] [] =
        if rounds < (7 ^ (k + 1) - 1) / 6 then none else some (generatePlan c minRadius) := by
  have hlevel := levelIn_generatePlan h
  have hlen := length_tree c k
  refine ⟨⟨?_, ?_, ?_, ?_, ?_, ?_⟩, ?_⟩
  · rw [generatePlan_eq h, List.length_append, List.length_map, hlen]
    rfl
  · rw [generatePlan_eq h, List.getElem?_append_right (by simp [hlen, circleCount])]
    simp [hlen, circleCount]
  · rw [hlevel, if_pos (circleCount_pos k), levelAt_zero]
  · intro i hi
    cases k with
    | zero => exact absurd hi (Nat.not_lt_zero i)
    | succ k =>
      have hi' : i < circleCount k := hi
      have hcount := circleCount_succ k
      refine ⟨levelAt i, by rw [hlevel, if_pos (by omega)], fun j hpos hle => ?_⟩
      rw [hlevel, if_pos (by omega), levelAt_part hpos hle]
  · intro a b level ha hb
    exact levelAt_injective ((eq_levelAt h ha).symm.trans (eq_levelAt h hb))
  · intro a b upper lower ha hb hbelow
    rw [eq_levelAt h ha, eq_levelAt h hb] at hbelow
    exact lt_of_levelBelow hbelow
  · intro rounds
    have htop : ∀ x ∈ [(c, "1")], x.1.radius = c.radius := by simp
    have hloop := generateLoop_eq h htop rounds []
    rw [generatePlan_eq h]
    rw [← tree, hlen] at hloop
    exact hloop

theorem generatePlan_breadthFirst_two :
    (splits 1000.0 4000.0).encard = (2 : Nat) ∧
      IsBreadthFirst 2 (generatePlan ⟨⟨59.33, 18.06⟩, 4000.0⟩ 1000.0) ∧
      ∀ rounds, generateLoop 1000.0 rounds [(⟨⟨59.33, 18.06⟩, 4000.0⟩, "1")] [] =
        if rounds < (7 ^ (2 + 1) - 1) / 6 then none
        else some (generatePlan ⟨⟨59.33, 18.06⟩, 4000.0⟩ 1000.0) := by
  have hcount : (splits 1000.0 4000.0).encard = (2 : Nat) := by
    apply encard_splits
    · refine fun _ => ⟨by decide, ?_, by decide +kernel⟩
      change 4000.0 / 2.0 / 2.0 ≥ 1000.0
      decide +kernel
    · rintro ⟨-, hmin, -⟩
      change 4000.0 / 2.0 / 2.0 / 2.0 ≥ 1000.0 at hmin
      exact absurd hmin (by decide +kernel)
  exact ⟨hcount, generatePlan_breadthFirst (c := ⟨⟨59.33, 18.06⟩, 4000.0⟩) hcount⟩

end PlaceSearch
