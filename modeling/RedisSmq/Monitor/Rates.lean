import RedisSmq.Monitor.System
import RedisSmq.Stats.Totals

/-!
# What rates say

On every tick the rates are the numbers of messages that were counted since the tick before (`TickOk`), since a meter counts
what the log notes (`Metered`); and whatever is on its way to the hash, in it, or in a reply of it was written on a tick
(`Written`). So no message is lost or counted twice (`rates_reachable`), a consumer is idle exactly when nothing was counted
for five ticks (`idle_reachable`), and the totals that the worker computes are sums of such counts (`reported_reachable`).
-/

namespace RedisSmq.Monitor

open Js KeyText Stats Transition

/-! ## Log properties -/

/-- Every note of the log has the property, after what was noted before it. -/
def Noted (P : List Note → Note → Prop) (log : List Note) : Prop :=
  ∀ before e after, log = before ++ e :: after → P before e

theorem noted_nil (P : List Note → Note → Prop) : Noted P [] := by
  intro before e after h
  cases before <;> cases h

theorem Noted.append_singleton {P : List Note → Note → Prop} {log : List Note} {e : Note} (h : Noted P log)
    (he : P log e) : Noted P (log ++ [e]) := by
  intro before e' after heq
  rcases List.eq_nil_or_concat after with rfl | ⟨after, last, rfl⟩
  · obtain ⟨rfl, hlast⟩ := List.append_inj' heq rfl
    cases hlast
    exact he
  · rw [List.concat_eq_append, ← List.cons_append, ← List.append_assoc] at heq
    obtain ⟨rfl, _⟩ := List.append_inj' heq rfl
    exact h before e' after rfl

/-! ## The invariant -/

/-- On a tick, the rates are what was counted since the last one, and a consumer is idle under test when its last five
rates were zero. -/
structure TickOk (test : Bool) (before : List Note) (o : Owner) (rates : RateKind → ℕ) (idle : Bool) : Prop where
  counts : ∀ kind, rates kind = counted kind (sinceTick (recent o before))
  idles : idle = true ↔ test = true ∧ o.isConsumer = true ∧ 5 ≤ (rates :: published (recent o before)).length ∧
    ∀ r ∈ (rates :: published (recent o before)).take 5, ∀ k, r (.consumer k) = 0

/-- The meter counts what the log notes. -/
structure Metered (test : Bool) (o : Owner) (l : List Note) (m : Meter) : Prop where
  owner : m.isConsumer = o.isConsumer
  pending : ∀ kind, m.pending kind = counted kind (sinceTick l)
  sum : ∀ kind, ((published l).map fun rates => rates kind).sum + m.pending kind = counted kind l
  idleStack : test = true → o.isConsumer = true →
    m.idleStack = (((published l).map Meter.idleFlag ++ List.replicate 5 0).take 5).reverse

/-- The text was written on a tick of the owner of the key. -/
def Written (log : List Note) (key : String) (text : JsString) : Prop :=
  ∃ o kind now rates idle, .ticked o now rates idle ∈ log ∧ key = o.key kind ∧ text = RateItem.text ⟨rates kind, now⟩

structure Inv (test : Bool) (s : State) (log : List Note) : Prop where
  metered : ∀ o r, s.messageRates o = some r → Metered test o (recent o log) r.meter
  ticks : Noted (fun before e => ∀ o now rates idle, e = .ticked o now rates idle → TickOk test before o rates idle) log
  inFlight : ∀ o, ∀ data ∈ s.inFlight o, ∀ p ∈ data, Written log p.1 p.2
  rates : ∀ key text, s.rates.lookup key = some text → Written log key text
  worker : ∀ result, s.worker = .replied result → (result.map Prod.fst).Nodup ∧ ∀ p ∈ result, Written log p.1 p.2

section

variable {test : Bool} {s s' : State} {log : List Note} {o : Owner} {m m' : Meter} {l : List Note}

theorem Written.mono {log' : List Note} {key : String} {text : JsString} (h : Written log key text)
    (hlog : ∀ e ∈ log, e ∈ log') : Written log' key text := by
  obtain ⟨o, kind, now, rates, idle, hmem, hkey, htext⟩ := h
  exact ⟨o, kind, now, rates, idle, hlog _ hmem, hkey, htext⟩

theorem metered_new (test : Bool) (o : Owner) : Metered test o [] (Meter.new o.isConsumer) where
  owner := by cases o.isConsumer <;> rfl
  pending kind := Meter.pending_new _ kind
  sum kind := by
    rw [Meter.pending_new]
    rfl
  idleStack _ ho := by
    rw [ho]
    rfl

theorem Metered.increment (h : Metered test o l m) {kind : RateKind} {now : ℕ}
    (hm : m.increment kind now = some m') : Metered test o (.counted o kind :: l) m' := by
  obtain ⟨hstack, howner⟩ := Meter.idleStack_increment hm
  have hcounted : ∀ k l, counted k (.counted o kind :: l) = counted k l + if k = kind then 1 else 0 := by
    intro k l
    by_cases hk : k = kind
    · subst hk
      simp [counted, Note.counts]
    · simp [counted, Note.counts, hk, Ne.symm hk]
  refine ⟨howner.trans h.owner, fun k => ?_, fun k => ?_, fun ht ho => ?_⟩
  · show _ = counted k (.counted o kind :: sinceTick l)
    rw [Meter.pending_increment hm, h.pending, hcounted]
  · have hsum := h.sum k
    rw [Meter.pending_increment hm, hcounted]
    show ((published l).map fun rates => rates k).sum + _ = _
    omega
  · rw [hstack, h.idleStack ht ho]
    rfl

/-- The last five of what was noted, and one more. -/
theorem tail_reverse_take (i : ℕ) (l : List ℕ) (h : 5 ≤ l.length) :
    ((l.take 5).reverse ++ [i]).tail = ((i :: l).take 5).reverse := by
  rw [← List.reverse_cons, List.tail_reverse]
  congr 1
  match l, h with
  | a :: b :: c :: d :: e :: l, _ => rfl

/-- Among five numbers that end in zeros of the start there is no zero when there are five others. -/
theorem forall_take_padded (l : List ℕ) :
    (∀ i ∈ (l ++ List.replicate 5 0).take 5, i ≠ 0) ↔ 5 ≤ l.length ∧ ∀ i ∈ l.take 5, i ≠ 0 := by
  constructor
  · intro h
    have hlength : 5 ≤ l.length := by
      by_contra hlt
      refine h 0 ?_ rfl
      rw [List.take_append, List.take_of_length_le (by omega), List.take_replicate]
      exact List.mem_append_right _ (List.mem_replicate.mpr ⟨by omega, rfl⟩)
    rw [List.take_append_of_le_length hlength] at h
    exact ⟨hlength, h⟩
  · rintro ⟨hlength, h⟩
    rwa [List.take_append_of_le_length hlength]

theorem Metered.tick (h : Metered test o l m) (now : ℕ) (idle : Bool) :
    Metered test o (.ticked o now (m.getRateFields test).1.rates idle :: l) (m.getRateFields test).1 where
  owner := (Meter.isConsumer_getRateFields test m).trans h.owner
  pending kind := (Meter.rates_getRateFields test m kind).2
  sum kind := by
    obtain ⟨hrates, hpending⟩ := Meter.rates_getRateFields test m kind
    have hsum := h.sum kind
    rw [hpending]
    show ((m.getRateFields test).1.rates kind + ((published l).map fun rates => rates kind).sum) + 0 = counted kind l
    omega
  idleStack ht ho := by
    subst ht
    obtain ⟨hstack, _⟩ := Meter.idle_getRateFields (h.owner.trans ho)
    rw [hstack, h.idleStack rfl ho, tail_reverse_take _ _ (by rw [List.length_append, List.length_replicate]; omega)]
    rfl

theorem Metered.tickOk {before : List Note} (h : Metered test o (recent o before) m) :
    TickOk test before o (m.getRateFields test).1.rates (m.getRateFields test).2 where
  counts kind := by rw [(Meter.rates_getRateFields test m kind).1, h.pending]
  idles := by
    have htick := (h.tick 0 true).idleStack
    constructor
    · intro hidle
      obtain ⟨ht, hm⟩ := Meter.not_idle_getRateFields hidle
      have ho := h.owner.symm.trans hm
      subst ht
      obtain ⟨_, hiff⟩ := Meter.idle_getRateFields hm
      have hall := hiff.mp hidle
      rw [htick rfl ho] at hall
      obtain ⟨hlength, hflags⟩ := (forall_take_padded _).mp fun i hi => hall i (List.mem_reverse.mpr hi)
      rw [List.length_map] at hlength
      refine ⟨rfl, ho, hlength, fun r hr k => (Meter.idleFlag_ne_zero r).mp ?_ k⟩
      apply hflags
      rw [← List.map_take]
      exact List.mem_map_of_mem hr
    · rintro ⟨rfl, ho, hlength, hzero⟩
      obtain ⟨_, hiff⟩ := Meter.idle_getRateFields (h.owner.trans ho)
      refine hiff.mpr fun i hi => ?_
      rw [htick rfl ho, List.mem_reverse] at hi
      refine (forall_take_padded _).mpr ⟨?_, fun i hi => ?_⟩ i hi
      · rwa [List.length_map]
      · rw [← List.map_take] at hi
        obtain ⟨r, hr, rfl⟩ := List.mem_map.mp hi
        exact (Meter.idleFlag_ne_zero r).mpr (hzero r hr)

/-! ## Hashes -/

theorem lookup_setAll {rates : Objects String JsString} {data : List (String × JsString)} {key : String} {text : JsString}
    (h : (setAll rates data).lookup key = some text) : rates.lookup key = some text ∨ (key, text) ∈ data := by
  induction data generalizing rates with
  | nil => exact .inl h
  | cons p data ih =>
    rcases ih h with h | h
    · rw [Objects.lookup_insert_ite] at h
      split at h
      · rename_i hkey
        cases h
        exact .inr (hkey ▸ List.mem_cons_self)
      · exact .inl h
    · exact .inr (List.mem_cons_of_mem _ h)

theorem lookup_deleteAll {rates : Objects String JsString} {keys : List String} {key : String} {text : JsString}
    (h : (deleteAll rates keys).lookup key = some text) : rates.lookup key = some text := by
  induction keys generalizing rates with
  | nil => exact h
  | cons k keys ih =>
    have herase := ih h
    rw [Objects.lookup_erase_ite] at herase
    split at herase
    · cases herase
    · exact herase

/-! ## The steps -/

theorem Metered.other {e : Note} (h : Metered test o (recent o log) m) (he : e.owner ≠ o) :
    Metered test o (recent o (log ++ [e])) m := by
  rw [recent_append_singleton, if_neg he]
  exact h

/-- A message rate is changed together with its note. -/
theorem metered_update {e : Note} {r' : Option MessageRate}
    (h : ∀ o r, s.messageRates o = some r → Metered test o (recent o log) r.meter)
    (hr : ∀ r, r' = some r → Metered test e.owner (recent e.owner (log ++ [e])) r.meter) (o : Owner) (r : MessageRate)
    (ho : Function.update s.messageRates e.owner r' o = some r) : Metered test o (recent o (log ++ [e])) r.meter := by
  by_cases heq : o = e.owner
  · subst heq
    rw [Function.update_self] at ho
    exact hr r ho
  · rw [Function.update_of_ne heq] at ho
    exact (h o r ho).other (Ne.symm heq)

/-- What was written stays written. -/
theorem Inv.mono_written {e : Note} (h : Inv test s log)
    (hmetered : ∀ o r, s'.messageRates o = some r → Metered test o (recent o (log ++ [e])) r.meter)
    (hticks : ∀ o now rates idle, e = .ticked o now rates idle → TickOk test log o rates idle)
    (hinFlight : ∀ o, ∀ data ∈ s'.inFlight o, data ∈ s.inFlight o ∨ ∀ p ∈ data, Written (log ++ [e]) p.1 p.2)
    (hrates : s'.rates = s.rates) (hworker : s'.worker = s.worker) : Inv test s' (log ++ [e]) where
  metered := hmetered
  ticks := h.ticks.append_singleton hticks
  inFlight o data hdata p hp := by
    rcases hinFlight o data hdata with hold | hnew
    · exact (h.inFlight o data hold p hp).mono fun _ => List.mem_append_left _
    · exact hnew p hp
  rates key text hlookup := by
    rw [hrates] at hlookup
    exact (h.rates key text hlookup).mono fun _ => List.mem_append_left _
  worker result hresult := by
    rw [hworker] at hresult
    obtain ⟨hnodup, hall⟩ := h.worker result hresult
    exact ⟨hnodup, fun p hp => (hall p hp).mono fun _ => List.mem_append_left _⟩

theorem inv_init (test : Bool) : Inv test init [] where
  metered _ _ h := by cases h
  ticks := noted_nil _
  inFlight _ _ h := by cases h
  rates _ _ h := by cases h
  worker _ h := by cases h

theorem inv_step {a : Action} (h : Inv test s log) (hs : step test s a = some s') :
    Inv test s' (log ++ notes test s a) := by
  have hmetered : ∀ o r, s.messageRates o = some r → Metered test o (recent o log) r.meter := h.metered
  have hnil : Inv test s' log → Inv test s' (log ++ []) := fun h => by rwa [List.append_nil]
  cases a with
  | setUpMessageRate o =>
    simp only [step] at hs
    split at hs
    · cases hs
      refine h.mono_written (metered_update (e := .setUp o) hmetered fun r hr => ?_) (fun _ _ _ _ he => by cases he)
        (fun _ _ hdata => .inl hdata) rfl rfl
      cases hr
      rw [recent_append_singleton, if_pos rfl]
      exact metered_new test o
    · cases hs
  | increment o kind now =>
    simp only [step] at hs
    split at hs
    · cases hs
    · rename_i r hr
      split at hs <;> cases hs
      rename_i meter hmeter
      refine h.mono_written (metered_update (e := .counted o kind) hmetered fun r' hr' => ?_)
        (fun _ _ _ _ he => by cases he) (fun _ _ hdata => .inl hdata) rfl rfl
      cases hr'
      rw [recent_append_singleton, if_pos rfl]
      exact (h.metered o r hr).increment hmeter
  | tick o now =>
    simp only [step] at hs
    split at hs
    · cases hs
    · rename_i r hr
      have hm := h.metered o r hr
      have hnotes : notes test s (.tick o now) =
          [.ticked o now (r.meter.getRateFields test).1.rates (r.meter.getRateFields test).2] := by
        simp only [notes, hr]
      rw [hnotes]
      unfold Monitor.tick at hs
      split at hs
      · cases hs
        refine h.mono_written (metered_update (e := .ticked o now _ _) hmetered fun r' hr' => ?_)
          (fun o' now' rates idle he => ?_) (fun o' data hdata => ?_) rfl rfl
        · cases hr'
          rw [recent_append_singleton, if_pos rfl]
          exact hm.tick now _
        · cases he
          exact hm.tickOk
        · dsimp only at hdata
          by_cases ho : o' = o
          · subst ho
            rw [Function.update_self] at hdata
            rcases List.mem_append.mp hdata with hdata | hdata
            · exact .inl hdata
            · cases List.mem_singleton.mp hdata
              refine .inr fun p hp => ?_
              obtain ⟨kind, rfl⟩ := Meter.mem_formatRateFields hp
              exact ⟨o', kind, now, _, _, List.mem_append_right _ (List.mem_singleton_self _), rfl, rfl⟩
          · rw [Function.update_of_ne ho] at hdata
            exact .inl hdata
      · cases hs
  | tearDownMessageRate o =>
    simp only [step] at hs
    refine hnil ?_
    split at hs
    · cases hs
    split at hs <;> cases hs
    refine { h with metered := fun o' r hr => ?_ }
    dsimp only at hr
    by_cases ho : o' = o
    · subst ho
      rw [Function.update_self] at hr
      cases hr
    · rw [Function.update_of_ne ho] at hr
      exact h.metered o' r hr
  | hmset o =>
    simp only [step] at hs
    refine hnil ?_
    split at hs <;> cases hs
    rename_i data rest hdata
    refine { h with inFlight := fun o' data' hdata' => ?_, rates := fun key text hlookup => ?_ }
    · dsimp only at hdata'
      by_cases ho : o' = o
      · subst ho
        rw [Function.update_self] at hdata'
        exact h.inFlight o' data' (hdata ▸ List.mem_cons_of_mem _ hdata')
      · rw [Function.update_of_ne ho] at hdata'
        exact h.inFlight o' data' hdata'
    · rcases lookup_setAll hlookup with hlookup | hmem
      · exact h.rates key text hlookup
      · exact h.inFlight o data (hdata ▸ List.mem_cons_self) _ hmem
  | halt o =>
    simp only [step] at hs
    refine hnil ?_
    split at hs <;> cases hs
    refine { h with inFlight := fun o' data hdata => ?_ }
    dsimp only at hdata
    by_cases ho : o' = o
    · subst ho
      rw [Function.update_self] at hdata
      cases hdata
    · rw [Function.update_of_ne ho] at hdata
      exact h.inFlight o' data hdata
  | hgetall =>
    simp only [step] at hs
    refine hnil ?_
    split at hs <;> cases hs
    refine { h with worker := fun result hresult => ?_ }
    cases hresult
    refine ⟨?_, fun p hp => ?_⟩
    · rw [List.map_map]
      exact s.rates.nodupKeys
    · obtain ⟨e, he, rfl⟩ := List.mem_map.mp hp
      exact h.rates e.1 e.2 (AList.mem_lookup_iff.mpr he)
  | getRates now =>
    simp only [step] at hs
    refine hnil ?_
    split at hs
    · obtain ⟨items, _, rfl⟩ := Option.map_eq_some_iff.mp hs
      refine { h with worker := fun result hresult => ?_ }
      dsimp only at hresult
      split at hresult <;> cases hresult
    · cases hs
  | hdel =>
    simp only [step] at hs
    refine hnil ?_
    split at hs <;> cases hs
    refine { h with
      rates := fun key text hlookup => h.rates key text (lookup_deleteAll hlookup)
      worker := fun _ hresult => by cases hresult }

end

variable {test : Bool} {s : State × List Note}

theorem inv_reachable (h : Reach ((system test).logged (notes test)) (fun _ _ => True) s) : Inv test s.1 s.2 := by
  refine h.invariant (I := fun s => Inv test s.1 s.2) (inv_init test) ?_
  intro s a s' hinv _ hs
  obtain ⟨hstep, hlog⟩ := Machine.logged_step hs
  rw [hlog]
  exact inv_step hinv hstep

/-- **Rates count messages**: on every tick of every run the rates are what was counted since the last tick, and what was
counted since an owner was set up is what it published and what is pending. -/
theorem rates_reachable (h : Reach ((system test).logged (notes test)) (fun _ _ => True) s) :
    (∀ before o now rates idle after, s.2 = before ++ .ticked o now rates idle :: after →
      ∀ kind, rates kind = counted kind (sinceTick (recent o before))) ∧
    ∀ o r, s.1.messageRates o = some r → ∀ kind,
      ((published (recent o s.2)).map fun rates => rates kind).sum + r.meter.pending kind = counted kind (recent o s.2) := by
  have hinv := inv_reachable h
  refine ⟨fun before o now rates idle after hlog => ?_, fun o r hr => (hinv.metered o r hr).sum⟩
  exact (hinv.ticks before _ after hlog o now rates idle rfl).counts

/-- **Idle consumers**: under test, and only there, `IDLE` is emitted on a tick exactly when this tick and the four before
it found that nothing was processed, acknowledged or unacknowledged. -/
theorem idle_reachable (h : Reach ((system test).logged (notes test)) (fun _ _ => True) s) :
    ∀ before o now rates idle after, s.2 = before ++ .ticked o now rates idle :: after →
      (idle = true ↔ test = true ∧ o.isConsumer = true ∧ 5 ≤ (rates :: published (recent o before)).length ∧
        ∀ r ∈ (rates :: published (recent o before)).take 5, ∀ k, r (.consumer k) = 0) := by
  intro before o now rates idle after hlog
  exact ((inv_reachable h).ticks before _ after hlog o now rates idle rfl).idles

/-! ## What the worker computes -/

/-- The entry is of a tick: it has its clock value, and what was counted since the tick before. -/
def OfTick (log : List Note) (e : RateEntry) : Prop :=
  ∃ before o rates idle after, log = before ++ .ticked o e.item.timestamp rates idle :: after ∧
    e.ns = o.ns ∧ e.queueName = o.queueName ∧ e.id = o.id ∧ e.item.rate = counted e.kind (sinceTick (recent o before))

/-- What was written is the text of an entry of a tick. -/
theorem Inv.ofTick {s : State} {log : List Note} (h : Inv test s log) {key : String} {text : JsString}
    (hw : Written log key text) : ∃ e : RateEntry, OfTick log e ∧ (key, text) = (e.key, e.item.text) := by
  obtain ⟨o, kind, now, rates, idle, hmem, rfl, rfl⟩ := hw
  obtain ⟨before, after, hlog⟩ := List.append_of_mem hmem
  have hcounts := (h.ticks before _ after hlog o now rates idle rfl).counts kind
  exact ⟨⟨kind, o.ns, o.queueName, o.id, ⟨rates kind, now⟩⟩, ⟨before, o, rates, idle, after, hlog, rfl, rfl, rfl, hcounts⟩,
    rfl⟩

/-- A reply of such texts is one of entries. -/
theorem exists_entries {P : RateEntry → Prop} {result : List (String × JsString)}
    (h : ∀ p ∈ result, ∃ e : RateEntry, P e ∧ p = (e.key, e.item.text)) :
    ∃ entries : List RateEntry, (∀ e ∈ entries, P e) ∧ items result = some (rateItems entries) ∧
      entries.map RateEntry.key = result.map Prod.fst := by
  induction result with
  | nil => exact ⟨[], fun _ he => (by cases he), rfl, rfl⟩
  | cons p result ih =>
    obtain ⟨entries, hP, hitems, hkeys⟩ := ih fun p' hp' => h p' (List.mem_cons_of_mem _ hp')
    obtain ⟨e, he, rfl⟩ := h p List.mem_cons_self
    refine ⟨e :: entries, List.forall_mem_cons.mpr ⟨he, hP⟩, ?_, congrArg (e.key :: ·) hkeys⟩
    unfold items at hitems ⊢
    rw [List.mapM_cons, RateItem.parse_text, Option.map_some, hitems]
    rfl

/-- **Reported rates**: whatever reply the worker has, it can be read; each item is of a tick, the keys are distinct, and
the totals are the sums of the counts whose ticks are not more than a second old. -/
theorem reported_reachable (h : Reach ((system test).logged (notes test)) (fun _ _ => True) s)
    {result : List (String × JsString)} (hr : s.1.worker = .replied result) (now : String → ℕ) :
    ∃ entries : List RateEntry, items result = some (rateItems entries) ∧ (entries.map RateEntry.key).Nodup ∧
      (∀ e ∈ entries, OfTick s.2 e) ∧
      ∀ kind, (getRates now (rateItems entries) (reset : AggregatedStats Unit)).1.rates.get kind =
        (entries.map (RateEntry.amount now kind)).sum := by
  have hinv := inv_reachable h
  obtain ⟨hnodup, hwritten⟩ := hinv.worker result hr
  obtain ⟨entries, htick, hitems, hkeys⟩ := exists_entries fun p hp => hinv.ofTick (hwritten p hp)
  rw [← hkeys] at hnodup
  exact ⟨entries, hitems, hnodup, htick, (@ratesInv_getRates Unit entries hnodup now 0).totals⟩

/-! ## A consumer that is read -/

/-- A consumer of the queue `orders`. -/
def ordersConsumer : Owner := ⟨true, testing, orders, consumerId⟩

/-- It processes two messages, and its rates are read after the tick. -/
def readRun : List Action :=
  [.setUpMessageRate ordersConsumer, .increment ordersConsumer (.consumer .processing) 400,
    .increment ordersConsumer (.consumer .processing) 1900, .tick ordersConsumer 2000, .hmset ordersConsumer, .hgetall]

theorem rates_readRun : ∃ s, run ((system true).logged (notes true)) (fun _ _ => True) (init, []) readRun = some s ∧
    (∀ before o now rates idle after, s.2 = before ++ .ticked o now rates idle :: after →
      ∀ kind, rates kind = counted kind (sinceTick (recent o before))) ∧
    ∀ o r, s.1.messageRates o = some r → ∀ kind,
      ((published (recent o s.2)).map fun rates => rates kind).sum + r.meter.pending kind = counted kind (recent o s.2) :=
  exists_run (by decide) fun _ h => rates_reachable h

theorem idle_readRun : ∃ s, run ((system true).logged (notes true)) (fun _ _ => True) (init, []) readRun = some s ∧
    ∀ before o now rates idle after, s.2 = before ++ .ticked o now rates idle :: after →
      (idle = true ↔ true = true ∧ o.isConsumer = true ∧ 5 ≤ (rates :: published (recent o before)).length ∧
        ∀ r ∈ (rates :: published (recent o before)).take 5, ∀ k, r (.consumer k) = 0) :=
  exists_run (by decide) fun _ h => idle_reachable h

theorem reported_readRun : ∃ s result, run ((system true).logged (notes true)) (fun _ _ => True) (init, []) readRun = some s ∧
    s.1.worker = .replied result ∧ ∃ entries : List RateEntry, items result = some (rateItems entries) ∧
      (entries.map RateEntry.key).Nodup ∧ (∀ e ∈ entries, OfTick s.2 e) ∧
      ∀ kind, (getRates (fun _ => 2500) (rateItems entries) (reset : AggregatedStats Unit)).1.rates.get kind =
        (entries.map (RateEntry.amount (fun _ => 2500) kind)).sum := by
  obtain ⟨s, hs⟩ := Option.isSome_iff_exists.mp (show (run ((system true).logged (notes true)) (fun _ _ => True) (init, [])
    readRun).isSome by decide)
  have hreplied : ((run ((system true).logged (notes true)) (fun _ _ => True) (init, []) readRun).map fun s =>
      s.1.worker.isReplied) = some true := by decide
  rw [hs, Option.map_some, Option.some.injEq] at hreplied
  cases hw : s.1.worker with
  | idle | deletes => rw [hw] at hreplied; cases hreplied
  | replied result => exact ⟨s, result, hs, hw, reported_reachable (reach_of_run _ hs) hw _⟩

end RedisSmq.Monitor
