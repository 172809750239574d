import RunFarm.Closing
import RunFarm.OpenRentals
import RunFarm.Python.Numerals
import RunFarm.Reaping.Accounting

/-! A reap run clears the phantoms of its ledger: what the budget still charges was listed and not
cleared, or is just rented. -/
set_option autoImplicit false

namespace RunFarm
open Python (Dict)

variable {rows : List Row} {e e' : Row} {iid iid' : InstanceId} {now : ℚ}

namespace ReapCall

variable (c : ReapCall)

end ReapCall

end RunFarm
