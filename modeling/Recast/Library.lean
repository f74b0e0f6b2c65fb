import Recast.Text.Basic

/-!
# Libraries of the source

The libraries that a snippet may use, and the calls by which they show.
-/

namespace Recast

namespace Library

/-- The library of arrays. -/
def numpy : Text := "numpy"

/-- The library of learning methods. -/
def sklearn : Text := "sklearn"

/-- How every call into the array library begins. -/
def arrayCall : Text := "np."

/-- The call that builds an array. -/
def arrayBuilder : Text := "np.array"

/-- The class that scales values to a range. -/
def scalerClass : Text := "MinMaxScaler"

/-- The call that fits a scaler and applies it. -/
def fitTransform : Text := ".fit_transform("

end Library

end Recast
